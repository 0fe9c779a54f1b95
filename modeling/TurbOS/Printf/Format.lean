import TurbOS.Lib.Numeral
import TurbOS.Printf.Output
import TurbOS.Str.Integers

/-!
# The language of formats

A format is a sequence of characters that stand for themselves and of conversions.  A conversion is
spelled with a percent sign, flags, a width, a precision, a size and a letter.  `scan_text` says
that the formatter, which works through the characters of the format, reads a conversion as what it
is spelled from, and `render_spell` that it goes from part to part.

The spelling is given for every conversion of the language, so the width is a number that does not
begin with zero: a zero in this place is a flag.
-/

open Numeral

namespace TurbOS.Printf

/-! ## Conversions -/

/-- A flag. -/
inductive Mark where
  | zero | minus | plus | space | hash
deriving DecidableEq, Repr

def Mark.char : Mark → Char
  | .zero => '0'
  | .minus => '-'
  | .plus => '+'
  | .space => ' '
  | .hash => '#'

def Mark.set (flags : Flags) : Mark → Flags
  | .zero => { flags with zeropad := true }
  | .minus => { flags with left := true }
  | .plus => { flags with plus := true }
  | .space => { flags with space := true }
  | .hash => { flags with hash := true }

/-- A number in a format. -/
structure Digits where
  text : List Char
  ne_nil : text ≠ []
  isDigit : ∀ c ∈ text, isDigit c

/-- The value of a number; the formatter computes it in 32 bits. -/
def Digits.value (ds : Digits) : ℕ := read (fun c => c.toNat - '0'.toNat) 10 ds.text % 2 ^ 32

/-- A number that is written in the format, or one that is taken from the arguments. -/
inductive Count where
  | number (ds : Digits)
  | star

def Count.text : Count → List Char
  | .number ds => ds.text
  | .star => ['*']

/-- The size of an integer. -/
inductive Size where
  | none | hh | h | l | ll | t | j | z
deriving DecidableEq, Repr

def Size.text : Size → List Char
  | .none => []
  | .hh => ['h', 'h']
  | .h => ['h']
  | .l => ['l']
  | .ll => ['l', 'l']
  | .t => ['t']
  | .j => ['j']
  | .z => ['z']

def Size.set (flags : Flags) : Size → Flags
  | .none => flags
  | .hh => { flags with short := true, char := true }
  | .h => { flags with short := true }
  | .l => { flags with long := true }
  | .ll => { flags with long := true, longLong := true }
  | .t | .j | .z => { flags with long := true }

/-- What is converted. -/
inductive Conversion where
  | d | i | u | x | upperX | o | b | c | s | p | percent
deriving DecidableEq, Repr

def Conversion.char : Conversion → Char
  | .d => 'd'
  | .i => 'i'
  | .u => 'u'
  | .x => 'x'
  | .upperX => 'X'
  | .o => 'o'
  | .b => 'b'
  | .c => 'c'
  | .s => 's'
  | .p => 'p'
  | .percent => '%'

/-- A conversion with all that stands between the percent sign and the letter. -/
structure Directive where
  marks : List Mark := []
  width : Option Count := none
  precision : Option (Option Count) := none
  size : Size := .none
  conversion : Conversion
  width_head : ∀ ds, width = some (.number ds) → ds.text.head? ≠ some '0' := by simp

namespace Directive

variable (d : Directive)

def widthText : List Char := (d.width.map Count.text).getD []

def precisionText : List Char :=
  (d.precision.map fun count => '.' :: (count.map Count.text).getD []).getD []

/-- The conversion as it stands in a format. -/
def text : List Char :=
  '%' :: (d.marks.map Mark.char ++ d.widthText ++ d.precisionText ++ d.size.text ++
    [d.conversion.char])

/-- The flags and the width: a negative width means a flag. -/
def withWidth (s : Scan) : Option Scan :=
  match d.width with
  | none => some s
  | some (.number ds) => some { s with width := ds.value }
  | some .star =>
    (vaInt s.va).map fun (w, va) =>
      { s with
        flags := { s.flags with left := s.flags.left || decide (w < 0) }
        width := w.toInt.natAbs
        va := va }

/-- The precision: a negative one counts as zero. -/
def withPrecision (s : Scan) : Option Scan :=
  match d.precision with
  | none => some s
  | some count =>
    let s := { s with flags := { s.flags with precision := true } }
    match count with
    | none => some s
    | some (.number ds) => some { s with precision := ds.value }
    | some .star => (vaInt s.va).map fun (p, va) => { s with precision := p.toInt.toNat, va := va }

/-- What the conversion asks for, with the arguments that give a width and a precision. -/
def request (va : List Arg) : Option Scan :=
  ((d.withWidth { flags := d.marks.foldl Mark.set {}, format := [], va := va }).bind
    d.withPrecision).map fun s => { s with flags := d.size.set s.flags }

end Directive

/-! ## Formats -/

/-- A part of a format. -/
inductive Item where
  | char (c : Char) (ne_percent : c ≠ '%')
  | directive (d : Directive)

def Item.text : Item → List Char
  | .char c _ => [c]
  | .directive d => d.text

/-- The text that the formatter makes of a part of a format, and the arguments that are left. -/
def Item.meaning : Item → List Arg → Option (List Char × List Arg)
  | .char c _, va => some ([c], va)
  | .directive d, va => (d.request va).bind (conversionText d.conversion.char)

/-- A format as a text. -/
def spell (items : List Item) : List Char := items.flatMap Item.text

/-- The text that the formatter makes of a format. -/
def meaning : List Item → List Arg → Option (List Char × List Arg)
  | [], va => some ([], va)
  | item :: items, va =>
    (item.meaning va).bind fun (text, va) => (meaning items va).map fun (text', va) =>
      (text ++ text', va)

/-! ## Reading a conversion -/

/-- The next character, if there is one, is not of this kind. -/
def Stops (p : Char → Prop) (format : List Char) : Prop := ∀ c ∈ format.head?, ¬ p c

variable {p : Char → Prop} {format rest : List Char} {flags : Flags} {va : List Arg}

lemma Stops.cons {c : Char} (h : ¬ p c) : Stops p (c :: format) := by
  rintro c' hc'
  obtain rfl : c = c' := by simpa using hc'
  exact h

lemma Stops.append (h : format = [] → Stops p rest) (h' : ∀ c ∈ format.head?, ¬ p c) :
    Stops p (format ++ rest) := by
  cases format with
  | nil => exact h rfl
  | cons c format => exact .cons (h' c rfl)

/-- The characters of flags. -/
def IsMark (c : Char) : Prop := c = '0' ∨ c = '-' ∨ c = '+' ∨ c = ' ' ∨ c = '#'

lemma evalFlags_stop (h : Stops IsMark rest) : evalFlags flags rest = (flags, rest) := by
  cases rest with
  | nil => rfl
  | cons c rest =>
    have hc := h c rfl
    simp only [IsMark, not_or] at hc
    rw [evalFlags, if_neg hc.1, if_neg hc.2.1, if_neg hc.2.2.1, if_neg hc.2.2.2.1,
      if_neg hc.2.2.2.2]

lemma evalFlags_marks (marks : List Mark) (h : Stops IsMark rest) :
    evalFlags flags (marks.map Mark.char ++ rest) = (marks.foldl Mark.set flags, rest) := by
  induction marks generalizing flags with
  | nil => exact evalFlags_stop h
  | cons m marks ih =>
    rw [List.map_cons, List.cons_append, List.foldl_cons, ← ih]
    cases m <;> rfl

/-- Every digit is read, and the number wraps around in the end. -/
lemma atoi_digits (i : ℕ) {ds : List Char} (hds : ∀ c ∈ ds, isDigit c)
    (h : Stops (fun c => isDigit c = true) rest) :
    atoi (i % 2 ^ 32) (ds ++ rest) =
      (ds.foldl (fun sofar c => sofar * 10 + (c.toNat - '0'.toNat)) i % 2 ^ 32, rest) := by
  induction ds generalizing i with
  | nil =>
    cases rest with
    | nil => rfl
    | cons c rest =>
      rw [List.nil_append, atoi, if_neg (h c rfl)]
      rfl
  | cons c ds ih =>
    have hstep : (i % 2 ^ 32 * 10 + (c.toNat - '0'.toNat)) % 2 ^ 32 =
        (i * 10 + (c.toNat - '0'.toNat)) % 2 ^ 32 := by
      rw [Nat.add_mod, Nat.mul_mod, Nat.mod_mod, ← Nat.mul_mod, ← Nat.add_mod]
    rw [List.cons_append, atoi, if_pos (hds c List.mem_cons_self), hstep,
      ih _ fun c' hc' => hds c' (List.mem_cons_of_mem c hc'), List.foldl_cons]

lemma atoi_value (ds : Digits) (h : Stops (fun c => isDigit c = true) rest) :
    atoi 0 (ds.text ++ rest) = (ds.value, rest) := atoi_digits 0 ds.isDigit h

/-- What ends a number: the dot, a size or a letter. -/
lemma Conversion.stops (conv : Conversion) :
    ¬ IsMark conv.char ∧ isDigit conv.char = false ∧ conv.char ≠ '*' ∧ conv.char ≠ '.' ∧
      conv.char ≠ 'l' ∧ conv.char ≠ 'h' ∧ conv.char ≠ 't' ∧ conv.char ≠ 'j' ∧ conv.char ≠ 'z' := by
  cases conv <;> simp only [IsMark, Conversion.char] <;> decide

lemma Size.stops (size : Size) {c : Char} (h : c ∈ size.text.head?) :
    ¬ IsMark c ∧ isDigit c = false ∧ c ≠ '*' ∧ c ≠ '.' := by
  cases size <;> simp only [Size.text, List.head?_nil, List.head?_cons, Option.mem_def,
    reduceCtorEq, Option.some.injEq] at h <;> subst h <;> simp only [IsMark] <;> decide

/-- A condition that neither a size nor a letter meets ends in front of them. -/
lemma stops_size (d : Directive) (h : ∀ c, p c → IsMark c ∨ isDigit c = true ∨ c = '*' ∨ c = '.') :
    Stops p (d.size.text ++ d.conversion.char :: rest) := by
  refine .append (fun _ => .cons fun hc => ?_) fun c hc hpc => ?_
  · obtain ⟨h₁, h₂, h₃, h₄, -⟩ := d.conversion.stops
    rcases h _ hc with hc | hc | hc | hc
    · exact h₁ hc
    · rw [h₂] at hc
      exact Bool.false_ne_true hc
    · exact h₃ hc
    · exact h₄ hc
  · obtain ⟨h₁, h₂, h₃, h₄⟩ := d.size.stops hc
    rcases h c hpc with hc | hc | hc | hc
    · exact h₁ hc
    · rw [h₂] at hc
      exact Bool.false_ne_true hc
    · exact h₃ hc
    · exact h₄ hc

/-- The same in front of a precision, unless the condition is to be the dot. -/
lemma stops_precision (d : Directive) (h : ∀ c, p c → IsMark c ∨ isDigit c = true ∨ c = '*')
    (hdot : ¬ p '.') : Stops p (d.precisionText ++ (d.size.text ++ d.conversion.char :: rest)) := by
  refine .append (fun _ => stops_size d fun c hc => ?_) fun c hc hpc => ?_
  · rcases h c hc with hc | hc | hc
    · exact .inl hc
    · exact .inr (.inl hc)
    · exact .inr (.inr (.inl hc))
  · have hc' : c = '.' := by
      rw [Directive.precisionText] at hc
      cases hprec : d.precision with
      | none => simp [hprec] at hc
      | some count => simpa [hprec, eq_comm] using hc
    exact hdot (hc' ▸ hpc)

lemma isDigit_of_isMark {c : Char} (h : IsMark c) (hd : isDigit c = true) : c = '0' := by
  rcases h with rfl | rfl | rfl | rfl | rfl
  · rfl
  all_goals exact absurd hd (by decide)

/-- Behind the flags stands no further flag. -/
lemma stops_width (d : Directive) :
    Stops IsMark (d.widthText ++ (d.precisionText ++
      (d.size.text ++ d.conversion.char :: rest))) := by
  refine .append (fun _ => stops_precision d (fun c hc => .inl hc) (by simp [IsMark]))
    fun c hc hmark => ?_
  rw [Directive.widthText] at hc
  rcases hwidth : d.width with _ | ds | _
  · simp [hwidth] at hc
  · simp only [hwidth, Option.map_some, Option.getD_some, Count.text] at hc
    have hmem : c ∈ ds.text := List.mem_of_head? hc
    have hzero := isDigit_of_isMark hmark (ds.isDigit c hmem)
    exact d.width_head ds hwidth (by rw [← hzero]; exact hc)
  · simp only [hwidth, Option.map_some, Option.getD_some, Count.text, List.head?_cons,
      Option.mem_def, Option.some.injEq] at hc
    rw [← hc] at hmark
    simp [IsMark] at hmark

lemma evalLength_size (d : Directive) (s : Scan)
    (h : s.format = d.size.text ++ d.conversion.char :: rest) :
    evalLength s = { s with flags := d.size.set s.flags, format := d.conversion.char :: rest } := by
  obtain ⟨-, -, -, -, hl, hh, ht, hj, hz⟩ := d.conversion.stops
  obtain ⟨flags, width, precision, format, va⟩ := s
  obtain rfl : format = _ := h
  rw [evalLength]
  cases d.size <;> simp [Size.text, Size.set, hl, hh, ht, hj, hz]

lemma evalPrecision_text (d : Directive) (s : Scan)
    (h : s.format = d.precisionText ++ (d.size.text ++ d.conversion.char :: rest)) :
    evalPrecision s = (d.withPrecision { s with format := [] }).map fun s' =>
      { s' with format := d.size.text ++ d.conversion.char :: rest } := by
  have hstop : ∀ p : Char → Prop, (∀ c, p c → IsMark c ∨ isDigit c = true ∨ c = '*' ∨ c = '.') →
      Stops p (d.size.text ++ d.conversion.char :: rest) := fun p hp => stops_size d hp
  obtain ⟨c, tail, hcons⟩ : ∃ c tail, d.size.text ++ d.conversion.char :: rest = c :: tail :=
    List.exists_cons_of_ne_nil (by simp)
  rw [Directive.precisionText] at h
  rw [evalPrecision, Directive.withPrecision]
  rcases hprec : d.precision with _ | _ | ds | _
  · -- no precision
    have hdot : c ≠ '.' := hstop (· = '.') (fun _ hc => .inr (.inr (.inr hc))) c
      (by rw [hcons]; rfl)
    simp only [hprec, Option.map_none, Option.getD_none, List.nil_append] at h
    rw [h, hcons]
    simp only [if_neg hdot, Option.map_some]
    rw [← hcons, ← h]
  · -- a dot only
    have hdigit : isDigit c ≠ true := hstop (fun c => isDigit c = true) (fun _ hc => .inr (.inl hc))
      c (by rw [hcons]; rfl)
    have hstar : c ≠ '*' := hstop (· = '*') (fun _ hc => .inr (.inr (.inl hc))) c
      (by rw [hcons]; rfl)
    simp only [hprec, Option.map_some, Option.map_none, Option.getD_none, Option.getD_some,
      List.cons_append, List.nil_append] at h
    rw [h]
    simp only [if_true, evalPrecisionValue, hcons, if_neg hdigit, if_neg hstar, Option.map_some]
  · -- a number
    simp only [hprec, Option.map_some, Option.getD_some, Count.text, List.cons_append] at h
    obtain ⟨c', cs, hds⟩ := List.exists_cons_of_ne_nil ds.ne_nil
    have hdigit : isDigit c' = true := ds.isDigit c' (by simp [hds])
    have hatoi := atoi_value ds (hstop (fun c => isDigit c = true) fun _ hc => .inr (.inl hc))
    rw [h]
    simp only [if_true, evalPrecisionValue]
    rw [hatoi, hds, List.cons_append]
    simp only [hdigit, if_true, Option.map_some]
  · -- a star
    simp only [hprec, Option.map_some, Option.getD_some, Count.text, List.cons_append,
      List.nil_append] at h
    have hstar : isDigit '*' = false := rfl
    rw [h]
    simp only [if_true, evalPrecisionValue, hstar, Bool.false_eq_true, if_false, Option.map_map]
    congr 1
    funext p
    obtain ⟨v, va⟩ := p
    dsimp only [Function.comp]
    congr 1
    split
    · rfl
    · rename_i hneg
      rw [Str.pos_iff] at hneg
      exact (Int.toNat_of_nonpos (by omega)).symm

lemma evalWidth_text (d : Directive) (s : Scan)
    (h : s.format = d.widthText ++ (d.precisionText ++
    (d.size.text ++ d.conversion.char :: rest))) :
    evalWidth s = (d.withWidth { s with format := [] }).map fun s' =>
      { s' with format := d.precisionText ++ (d.size.text ++ d.conversion.char :: rest) } := by
  have hstop : ∀ p : Char → Prop, (∀ c, p c → IsMark c ∨ isDigit c = true ∨ c = '*') → ¬ p '.' →
      Stops p (d.precisionText ++ (d.size.text ++ d.conversion.char :: rest)) :=
    fun p hp hdot => stops_precision d hp hdot
  obtain ⟨c, tail, hcons⟩ : ∃ c tail,
      d.precisionText ++ (d.size.text ++ d.conversion.char :: rest) = c :: tail :=
    List.exists_cons_of_ne_nil (by simp)
  rw [Directive.widthText] at h
  rw [evalWidth, Directive.withWidth]
  rcases hwidth : d.width with _ | ds | _
  · -- no width
    have hdigit : isDigit c ≠ true := hstop (fun c => isDigit c = true) (fun _ hc => .inr (.inl hc))
      (by decide) c (by rw [hcons]; rfl)
    have hstar : c ≠ '*' := hstop (· = '*') (fun _ hc => .inr (.inr hc)) (by decide) c
      (by rw [hcons]; rfl)
    simp only [hwidth, Option.map_none, Option.getD_none, List.nil_append] at h
    rw [h, hcons]
    simp only [if_neg hdigit, if_neg hstar, Option.map_some]
    rw [← hcons, ← h]
  · -- a number
    simp only [hwidth, Option.map_some, Option.getD_some, Count.text] at h
    obtain ⟨c', cs, hds⟩ := List.exists_cons_of_ne_nil ds.ne_nil
    have hdigit : isDigit c' = true := ds.isDigit c' (by simp [hds])
    have hatoi := atoi_value ds (hstop (fun c => isDigit c = true) (fun _ hc => .inr (.inl hc))
      (by decide))
    rw [h, hatoi, hds, List.cons_append]
    simp only [hdigit, if_true, Option.map_some]
  · -- a star
    simp only [hwidth, Option.map_some, Option.getD_some, Count.text, List.cons_append,
      List.nil_append] at h
    have hstar : isDigit '*' = false := rfl
    rw [h]
    simp only [hstar, Bool.false_eq_true, if_false, if_true, Option.map_map]
    congr 1
    funext p
    obtain ⟨w, va⟩ := p
    dsimp only [Function.comp]
    by_cases hneg : w < 0
    · simp [hneg]
    · have habs : w.toInt.toNat = w.toInt.natAbs := by
        rw [Str.neg_iff] at hneg
        omega
      simp [hneg, habs]

/-- Neither a width nor a precision depends on the format behind it. -/
lemma withPrecision_format (d : Directive) (s : Scan) (format : List Char) :
    d.withPrecision { s with format := format } =
      (d.withPrecision s).map fun s' => { s' with format := format } := by
  rw [Directive.withPrecision, Directive.withPrecision]
  rcases d.precision with _ | _ | ds | _
  · rfl
  · rfl
  · rfl
  · dsimp only
    rw [Option.map_map]
    rfl

/-- A conversion is read as what it is spelled from. -/
lemma scan_text (d : Directive) (rest : List Char) (va : List Arg) :
    scan (d.marks.map Mark.char ++ (d.widthText ++ (d.precisionText ++
        (d.size.text ++ d.conversion.char :: rest)))) va =
      (d.request va).map fun s => { s with format := d.conversion.char :: rest } := by
  rw [scan, evalFlags_marks d.marks (stops_width d)]
  dsimp only
  rw [evalWidth_text d _ rfl, Directive.request, Option.bind_map, Option.map_bind, Option.map_bind,
    Option.map_bind]
  congr 1
  funext s
  dsimp only [Function.comp]
  rw [evalPrecision_text d _ rfl, withPrecision_format d s, Option.map_map, Option.map_map,
    Option.map_map]
  congr 1
  funext s'
  exact evalLength_size d _ rfl

/-! ## Working through a format -/

/-- The text of a conversion does not depend on the format behind it. -/
lemma conversionText_format (spec : Char) (s : Scan) (format : List Char) :
    conversionText spec { s with format := format } = conversionText spec s := rfl

lemma directive_text (d : Directive) (rest : List Char) : d.text ++ rest =
    '%' :: (d.marks.map Mark.char ++ (d.widthText ++ (d.precisionText ++
      (d.size.text ++ d.conversion.char :: rest)))) := by
  simp [Directive.text]

/-- A part of a format gives its text, and the rest of the format gives the rest. -/
lemma render_item (item : Item) (rest : List Char) (va : List Arg) :
    render (item.text ++ rest) va = (item.meaning va).bind fun (text, va) =>
      (render rest va).map fun (text', va) => (text ++ text', va) := by
  cases item with
  | char c hc =>
    rw [Item.text, List.singleton_append, render, List.length_cons, renderFrom, if_pos hc]
    rfl
  | directive d =>
    rw [Item.text, directive_text, render, List.length_cons, renderFrom, if_neg (by simp),
      scan_text, Option.bind_map, Item.meaning, Option.bind_assoc]
    congr 1
    funext s
    dsimp only [Function.comp]
    rw [conversionText_format]
    congr 1
    funext p
    obtain ⟨text, va⟩ := p
    rw [renderFrom_eq va (by simp only [List.length_append, List.length_cons]; omega)]

/-- The text of a format is the sequence of the texts of its parts. -/
lemma render_spell (items : List Item) (va : List Arg) :
    render (spell items) va = meaning items va := by
  induction items generalizing va with
  | nil => rfl
  | cons item items ih =>
    have hcons : spell (item :: items) = item.text ++ spell items := List.flatMap_cons
    rw [hcons, render_item, meaning]
    congr 1
    funext p
    obtain ⟨text, va⟩ := p
    dsimp only
    rw [ih]

end TurbOS.Printf
