import TurbOS.Printf.Model

/-!
# What is handed to the output function

Every part of the formatter hands a text to the output function and does nothing else with it.  The
texts do not depend on the output function, on `maxlen` or on what stands in the destination, so a
call with one output function shows what a call with any other does.
-/

open Sinks

namespace TurbOS.Printf

variable {σ : Type*} (out : OutFct σ) (maxlen : ℕ)

/-- Hand a text to the output function. -/
def send (text : List Char) (o : Output σ) : Output σ :=
  ⟨o.idx + text.length, emits (fun c i => out c i maxlen) text o.idx o.dest⟩

variable {out maxlen} {buf : List Char} {flags : Flags} {width : ℕ} {s : Scan} {o : Output σ}

lemma send_append (text text' : List Char) :
    send out maxlen (text ++ text') o = send out maxlen text' (send out maxlen text o) := by
  rw [send, send, send, emits_append, List.length_append]
  dsimp only
  rw [Nat.add_assoc]

lemma put_eq (c : Char) : put out maxlen c o = send out maxlen [c] o := rfl

lemma spaces_eq (n : ℕ) : spaces out maxlen n o = send out maxlen (List.replicate n ' ') o := by
  induction n generalizing o with
  | zero => rfl
  | succ n ih => rw [spaces, ih, put_eq, ← send_append, List.replicate_succ, List.singleton_append]

lemma outBack_eq (len : ℕ) (h : len ≤ buf.length) :
    outBack out maxlen buf len o = send out maxlen (buf.take len).reverse o := by
  induction len generalizing o with
  | zero => rfl
  | succ len ih =>
    have hlast : buf.take (len + 1) = buf.take len ++ [buf.getD len '\x00'] := by
      rw [List.take_add_one, List.getD_eq_getElem?_getD, List.getElem?_eq_getElem (by omega)]
      rfl
    rw [outBack, ih (by omega), put_eq, ← send_append, hlast, List.reverse_append]
    rfl

/-! ## The texts -/

/-- The text of `_out_rev`. -/
def revText (buf : List Char) (width : ℕ) (flags : Flags) : List Char :=
  if flags.left then buf.reverse ++ List.replicate (width - buf.length) ' '
  else if flags.zeropad then buf.reverse
  else List.replicate (width - buf.length) ' ' ++ buf.reverse

lemma outRev_eq :
    outRev out maxlen buf width flags o = send out maxlen (revText buf width flags) o := by
  rw [outRev, revText, outBack_eq _ le_rfl, List.take_length]
  cases flags.left with
  | true =>
    have hidx : (send out maxlen buf.reverse o).idx - o.idx = buf.length := by
      rw [send]
      simp
    simp only [Bool.not_true, Bool.false_and, Bool.false_eq_true, if_false, if_true]
    rw [hidx, spaces_eq, ← send_append]
  | false =>
    cases flags.zeropad with
    | true => simp
    | false => simp [spaces_eq, send_append]

/-- The text of `print_integer`. -/
def integerText (value : ℕ) (negative : Bool) (base precision width : ℕ)
    (flags : Flags) : List Char :=
  let f := finalization negative base precision (integerBuffer value base width flags)
  revText f.buf f.width f.flags

lemma printInteger_eq (value : ℕ) (negative : Bool) (base precision : ℕ) :
    printInteger out maxlen value negative base precision width flags o =
      send out maxlen (integerText value negative base precision width flags) o := outRev_eq

/-- A text with spaces on one side, `n` of them. -/
def justified (left : Bool) (n : ℕ) (text : List Char) : List Char :=
  if left then text ++ List.replicate n ' ' else List.replicate n ' ' ++ text

/-- The characters of a string that are printed. -/
def shown : Option ℕ → List Char → Option (List Char)
  | _, [] => none
  | limit, c :: p =>
    if c ≠ '\x00' ∧ limit ≠ some 0 then (shown (limit.map (· - 1)) p).map (c :: ·) else some []

lemma outString_eq (limit : Option ℕ) (p : List Char) :
    outString out maxlen limit p o = (shown limit p).map fun text => send out maxlen text o := by
  induction p generalizing limit o with
  | nil => rfl
  | cons c p ih =>
    rw [outString, shown]
    split
    · rw [ih, Option.map_map, put_eq]
      congr 1
      funext text
      exact (send_append [c] text).symm
    · rfl

/-- The text of the case `s` for a string. -/
def stringText (s : Scan) (p : List Char) : Option (List Char) :=
  (strnlen (if s.precision ≠ 0 then s.precision else 2 ^ 64 - 1) p).bind fun len =>
    let l := if s.flags.precision then min (len % 2 ^ 32) s.precision else len % 2 ^ 32
    (shown (if s.flags.precision then some s.precision else none) p).map
      (justified s.flags.left (s.width - l))

/-- The text of a conversion, and the arguments that are left. -/
def conversionText (spec : Char) (s : Scan) : Option (List Char × List Arg) :=
  if spec = 'd' ∨ spec = 'i' ∨ spec = 'u' ∨ spec = 'x' ∨ spec = 'X' ∨ spec = 'o' ∨ spec = 'b' then
    let flags := integerFlags spec s.flags
    (vaWord s.va).map fun (v, va) =>
      if spec = 'i' ∨ spec = 'd' then
        (integerText (signedValue flags v).natAbs (signedValue flags v < 0) (baseOf spec)
          s.precision s.width flags, va)
      else (integerText (unsignedValue flags v) false (baseOf spec) s.precision s.width flags, va)
  else if spec = 'c' then
    (vaWord s.va).map fun (v, va) =>
      (justified s.flags.left (s.width - 1) [Char.ofNat v.toUInt8.toNat], va)
  else if spec = 's' then
    (vaStr s.va).bind fun (p, va) =>
      match p with
      | none => some (revText [')', 'l', 'l', 'u', 'n', '('] s.width s.flags, va)
      | some p => (stringText s p).map (·, va)
  else if spec = 'p' then
    let flags := { s.flags with zeropad := true, pointer := true }
    (vaWord s.va).map fun (value, va) =>
      if value = 0 then (revText [')', 'l', 'i', 'n', '('] 18 flags, va)
      else (integerText value.toNat false 16 s.precision 18 flags, va)
  else some ([spec], s.va)

lemma convertChar_eq : convertChar out maxlen s o =
    (vaWord s.va).map fun (v, va) =>
      (va, send out maxlen (justified s.flags.left (s.width - 1) [Char.ofNat v.toUInt8.toNat])
        o) := by
  rw [convertChar]
  congr 1
  funext p
  obtain ⟨v, va⟩ := p
  cases hleft : s.flags.left <;> simp [justified, spaces_eq, put_eq, ← send_append]

lemma convertString_eq (p : List Char) (va : List Arg) (h : vaStr s.va = some (some p, va)) :
    convertString out maxlen s o = (stringText s p).map fun text =>
      (va, send out maxlen text o) := by
  rw [convertString, h, Option.bind_some]
  dsimp only
  rw [stringText, Option.map_bind]
  congr 1
  funext len
  dsimp only [Function.comp]
  rw [outString_eq, Option.map_map, Option.map_map]
  congr 1
  funext text
  cases hleft : s.flags.left <;> simp [justified, spaces_eq, send_append]

/-- A conversion hands its text over. -/
lemma convert_eq {spec : Char} {format : List Char} (h : s.format = spec :: format) :
    convert out maxlen s o =
      (conversionText spec s).map fun (text, va) => (format, va, send out maxlen text o) := by
  rw [convert, h, conversionText]
  dsimp only
  split
  · -- the integer conversions
    rw [convertInteger, Option.map_map, Option.map_map]
    congr 1
    funext p
    obtain ⟨v, va⟩ := p
    dsimp only [Function.comp]
    split <;> simp only [printInteger_eq]
  split
  · rw [convertChar_eq, Option.map_map, Option.map_map]
    rfl
  split
  · -- a string, or the null pointer
    rcases hva : vaStr s.va with _ | ⟨_ | p, va⟩
    · rw [convertString, hva]
      rfl
    · rw [convertString, hva, Option.bind_some, Option.bind_some]
      dsimp only
      rw [outRev_eq]
      rfl
    · rw [convertString_eq p va hva, Option.bind_some]
      dsimp only
      rw [Option.map_map, Option.map_map]
      rfl
  split
  · rw [convertPointer, Option.map_map, Option.map_map]
    congr 1
    funext p
    obtain ⟨value, va⟩ := p
    dsimp only [Function.comp]
    split
    · rw [outRev_eq]
    · rw [printInteger_eq]
  split
  · rename_i hpercent
    rw [hpercent]
    rfl
  · rfl

/-! ## Whole formats -/

/-- The text of a format, and the arguments that are left. -/
def renderFrom : ℕ → List Char → List Arg → Option (List Char × List Arg)
  | _, [], va => some ([], va)
  | 0, _ :: _, _ => none
  | fuel + 1, c :: format, va =>
    if c ≠ '%' then (renderFrom fuel format va).map fun (text, va) => (c :: text, va)
    else
      (scan format va).bind fun s =>
        match s.format with
        | [] => none
        | spec :: format =>
          (conversionText spec s).bind fun (text, va) =>
            (renderFrom fuel format va).map fun (text', va) => (text ++ text', va)

/-- The same, with enough fuel for every format. -/
def render (format : List Char) (va : List Arg) : Option (List Char × List Arg) :=
  renderFrom format.length format va

/-- The loop hands the text over and does nothing else with the destination. -/
lemma loop_eq (fuel : ℕ) (format : List Char) (va : List Arg) (o : Output σ) :
    loop out maxlen fuel format va o =
      (renderFrom fuel format va).map fun (text, va) => (send out maxlen text o, va) := by
  induction fuel generalizing format va o with
  | zero => cases format <;> rfl
  | succ fuel ih =>
    cases format with
    | nil => rfl
    | cons c format =>
      rw [loop, renderFrom]
      split
      · rw [ih, Option.map_map, put_eq]
        congr 1
        funext p
        obtain ⟨text, va⟩ := p
        dsimp only [Function.comp]
        rw [← send_append, List.singleton_append]
      · rw [Option.map_bind]
        congr 1
        funext s
        dsimp only [Function.comp]
        rcases hformat : s.format with _ | ⟨spec, rest⟩
        · rw [convert, hformat]
          rfl
        · rw [convert_eq hformat, Option.bind_map, Option.map_bind]
          congr 1
          funext p
          obtain ⟨text, va⟩ := p
          dsimp only [Function.comp]
          rw [ih, Option.map_map]
          congr 1
          funext p
          obtain ⟨text', va⟩ := p
          dsimp only [Function.comp]
          rw [send_append]

/-- What a call of the formatter does. -/
lemma vsnprintf_eq (format : List Char) (va : List Arg) (dest : σ) :
    vsnprintf out maxlen format va dest = (render format va).map fun (text, va) =>
      (Int32.ofNat text.length,
        out '\x00' (if text.length < maxlen then text.length else Word64.sub maxlen 1) maxlen
          (emits (fun c i => out c i maxlen) text 0 dest), va) := by
  rw [vsnprintf, loop_eq, Option.map_map, render]
  congr 1
  funext p
  obtain ⟨text, va⟩ := p
  simp only [Function.comp, send, Nat.zero_add]

/-! ## Enough fuel -/

lemma length_atoi (i : ℕ) (format : List Char) : (atoi i format).2.length ≤ format.length := by
  induction format generalizing i with
  | nil => rfl
  | cons c format ih =>
    rw [atoi]
    split
    · exact (ih _).trans (Nat.le_succ _)
    · rfl

lemma length_evalFlags (format : List Char) :
    (evalFlags flags format).2.length ≤ format.length := by
  induction format generalizing flags with
  | nil => rfl
  | cons c format ih =>
    rw [evalFlags]
    repeat' split
    all_goals first | exact ih.trans (Nat.le_succ _) | rfl

lemma length_evalWidth {s s' : Scan} (h : evalWidth s = some s') :
    s'.format.length ≤ s.format.length := by
  rw [evalWidth] at h
  rcases hformat : s.format with _ | ⟨c, format⟩
  · rw [hformat] at h
    rw [← Option.some.inj h, hformat]
  · simp only [hformat] at h
    split at h
    · rw [← Option.some.inj h]
      exact length_atoi _ _
    · split at h
      · obtain ⟨⟨w, va⟩, -, rfl⟩ := Option.map_eq_some_iff.mp h
        dsimp only
        split <;> simp
      · rw [← Option.some.inj h, hformat]

lemma length_evalPrecision {s s' : Scan} (h : evalPrecision s = some s') :
    s'.format.length ≤ s.format.length := by
  rw [evalPrecision] at h
  rcases hformat : s.format with _ | ⟨c, format⟩
  · rw [hformat] at h
    rw [← Option.some.inj h, hformat]
  · simp only [hformat] at h
    split at h
    · rw [evalPrecisionValue] at h
      rcases format with _ | ⟨c', format⟩
      · rw [← Option.some.inj h]
        simp
      · dsimp only at h
        split at h
        · rw [← Option.some.inj h]
          exact (length_atoi _ _).trans (Nat.le_succ _)
        · split at h
          · obtain ⟨⟨p, va⟩, -, rfl⟩ := Option.map_eq_some_iff.mp h
            simp only [List.length_cons]
            omega
          · rw [← Option.some.inj h]
            simp
    · rw [← Option.some.inj h, hformat]

lemma length_evalLength (s : Scan) : (evalLength s).format.length ≤ s.format.length := by
  rw [evalLength]
  rcases hformat : s.format with _ | ⟨c, format⟩
  · rw [hformat]
  · dsimp only
    repeat' split
    all_goals simp [hformat] <;> omega

lemma length_scan {format : List Char} {va : List Arg} (h : scan format va = some s) :
    s.format.length ≤ format.length := by
  rw [scan] at h
  obtain ⟨s₂, hs₂, rfl⟩ := Option.map_eq_some_iff.mp h
  obtain ⟨s₁, h₁, h₂⟩ := Option.bind_eq_some_iff.mp hs₂
  calc (evalLength s₂).format.length ≤ s₂.format.length := length_evalLength s₂
    _ ≤ s₁.format.length := length_evalPrecision h₂
    _ ≤ (evalFlags {} format).2.length := length_evalWidth h₁
    _ ≤ format.length := length_evalFlags format

/-- The length of the format bounds the rounds of the loop. -/
lemma renderFrom_eq {fuel : ℕ} {format : List Char} (va : List Arg) (h : format.length ≤ fuel) :
    renderFrom fuel format va = render format va := by
  rw [render]
  generalize hn : format.length = n at h
  induction n using Nat.strong_induction_on generalizing format va fuel with
  | _ n ih =>
    subst hn
    cases format with
    | nil => cases fuel <;> rfl
    | cons c format =>
      obtain ⟨fuel, rfl⟩ : ∃ f, fuel = f + 1 := ⟨fuel - 1, by simp at h; omega⟩
      rw [List.length_cons] at h ih ⊢
      have hrest : ∀ (rest : List Char) (va : List Arg), rest.length ≤ format.length →
          renderFrom fuel rest va = renderFrom format.length rest va := fun rest va hle => by
        rw [ih rest.length (by omega) va rfl (by omega), ih rest.length (by omega) va rfl hle]
      rw [renderFrom, renderFrom]
      split
      · rw [hrest format va le_rfl]
      · rcases hscan : scan format va with _ | s
        · rfl
        · rw [Option.bind_some, Option.bind_some]
          have hle := length_scan hscan
          rcases hformat : s.format with _ | ⟨spec, rest⟩
          · rfl
          · rw [hformat, List.length_cons] at hle
            dsimp only
            congr 1
            funext p
            obtain ⟨text, va⟩ := p
            dsimp only
            rw [hrest rest va (by omega)]

end TurbOS.Printf
