import TurbOS.Lib.SpinLock
import TurbOS.Printf.Family

/-!
# The serial port

`serialPrintf` and `log` send texts to the port, and hold `serialLock` while they do.  All threads
and processors call them, and so does the handler for the characters that come in, in the middle of
whatever the processor does.  What arrives at the other end is one whole text after the other.  But
the handler waits forever if it comes in the middle of a text: its processor holds the lock that it
wants.

A processor is one flow of control here, with the interrupts that come in the middle of it.  When
threads are switched, each thread is such a flow: the one that goes on is not called in the middle
of the one that was taken off, and the latter can still give back the lock later.
-/

namespace TurbOS.Serial

open Printf SpinLock

/-! ## The functions -/

/-- `printc`, for the characters that were sent before.  The wait for the port is left out. -/
def printc (isInit : Bool) (c : Char) (sent : List Char) : List Char :=
  if isInit then sent ++ [c] else sent

/-- `serialPrintf`: what it sends while it holds the lock. -/
def serialPrintf (isInit : Bool) (fmt : List Char) (args : List Arg) : Option (List Char) :=
  (fctprintf (printc isInit) fmt args []).map fun r => r.2.1

/-- `log`: what it sends while it holds the lock.  The three calls share the list of the
arguments. -/
def log (isInit : Bool) (fmt : List Char) (args : List Arg) : Option (List Char) :=
  (fctprintf (printc isInit) "[LOG] ".toList args []).bind fun r =>
    (fctprintf (printc isInit) fmt r.2.2 r.2.1).bind fun r =>
      (fctprintf (printc isInit) "\n".toList r.2.2 r.2.1).map fun r => r.2.1

/-- `newline`. -/
def newline (isInit : Bool) : Option (List Char) := serialPrintf isInit "\n".toList []

/-- `COM1_Handler`, for the character that `read` returns: the texts that it sends. -/
def COM1_Handler (isInit : Bool) (c : Char) : Option (List (List Char)) :=
  let rubout := c = '\x08' || c = '\x7f'
  let shown := if c = '\r' then '\n' else if rubout then '\x08' else c
  (if rubout then (serialPrintf isInit ['\x08', ' '] []).map fun t => [t]
    else some []).bind fun texts =>
    (serialPrintf isInit "%c".toList [.word (UInt64.ofNat shown.toNat)]).map fun t => texts ++ [t]

/-- The calls. -/
inductive Request where
  | serialPrintf (fmt : List Char) (args : List Arg)
  | log (fmt : List Char) (args : List Arg)
  | newline
  | COM1_Handler (c : Char)

/-- The texts of a call, after `init`. -/
def Request.texts : Request → Option (List (List Char))
  | .serialPrintf fmt args => (Serial.serialPrintf true fmt args).map fun t => [t]
  | .log fmt args => (Serial.log true fmt args).map fun t => [t]
  | .newline => (Serial.newline true).map fun t => [t]
  | .COM1_Handler c => Serial.COM1_Handler true c

/-- A call whose format finds its arguments. -/
structure Call where
  request : Request
  texts : List (List Char)
  texts_eq : request.texts = some texts

variable {ι : Type*}

/-- What happens: a function is called, by a thread or in an interrupt, or a processor makes a
step. -/
inductive Event (ι : Type*) where
  | call (p : ι) (call : Call)
  | step (p : ι)

/-- The event at the lock. -/
def Event.atLock : Event ι → SpinLock.Event ι Char
  | .call p c => .call p c.texts
  | .step p => .step p

/-- The state after some events. -/
def after [DecidableEq ι] (es : List (Event ι)) : SpinLock.State ι Char :=
  run (es.map Event.atLock) (idle ι Char)

/-- The texts that were asked for. -/
def requested (es : List (Event ι)) : Multiset (List Char) := asked (es.map Event.atLock)

/-! ## The texts -/

/-- What one call of `serialPrintf` or `log` sends for a format and its arguments. -/
def IsText (t : List Char) : Prop :=
  ∃ fmt args text rest, render fmt args = some (text, rest) ∧
    (t = passed text ∨ t = "[LOG] ".toList ++ (passed text ++ ['\n']))

variable {fmt t : List Char} {args : List Arg} {call : Call}

lemma foldl_printc (cs sent : List Char) :
    cs.foldl (fun s c => printc true c s) sent = sent ++ cs := by
  induction cs generalizing sent with
  | nil => simp
  | cons c cs ih =>
    rw [List.foldl_cons, ih, printc, if_pos rfl, List.append_assoc, List.singleton_append]

lemma fctprintf_printc (fmt : List Char) (args : List Arg) (sent : List Char) :
    fctprintf (printc true) fmt args sent = (render fmt args).map fun r =>
      (Int32.ofNat r.1.length, sent ++ passed r.1, r.2) := by
  rw [fctprintf_eq]
  simp only [foldl_printc]

lemma serialPrintf_eq (fmt : List Char) (args : List Arg) :
    serialPrintf true fmt args = (render fmt args).map fun r => passed r.1 := by
  rw [serialPrintf, fctprintf_printc, Option.map_map]
  rfl

lemma log_eq (fmt : List Char) (args : List Arg) :
    log true fmt args = (render fmt args).map fun r =>
      "[LOG] ".toList ++ (passed r.1 ++ ['\n']) := by
  have hbegin : render "[LOG] ".toList args = some ("[LOG] ".toList, args) := rfl
  have hend : ∀ args, render ['\n'] args = some (['\n'], args) := fun _ => rfl
  rw [log, fctprintf_printc, hbegin]
  cases hr : render fmt args with
  | none => simp [fctprintf_printc, hr]
  | some r => simp [fctprintf_printc, hr, hend, passed]

lemma isText_serialPrintf (h : serialPrintf true fmt args = some t) : IsText t := by
  rw [serialPrintf_eq] at h
  obtain ⟨⟨text, rest⟩, hr, rfl⟩ := Option.map_eq_some_iff.mp h
  exact ⟨fmt, args, text, rest, hr, .inl rfl⟩

lemma isText_log (h : log true fmt args = some t) : IsText t := by
  rw [log_eq] at h
  obtain ⟨⟨text, rest⟩, hr, rfl⟩ := Option.map_eq_some_iff.mp h
  exact ⟨fmt, args, text, rest, hr, .inr rfl⟩

/-- Every call sends a text, and sends nothing else. -/
lemma Call.texts_spec (call : Call) : call.texts ≠ [] ∧ ∀ t ∈ call.texts, IsText t := by
  obtain ⟨request, texts, h⟩ := call
  dsimp only
  cases request with
  | serialPrintf fmt args =>
    obtain ⟨t, ht, rfl⟩ := Option.map_eq_some_iff.mp h
    exact ⟨by simp, by simpa using isText_serialPrintf ht⟩
  | log fmt args =>
    obtain ⟨t, ht, rfl⟩ := Option.map_eq_some_iff.mp h
    exact ⟨by simp, by simpa using isText_log ht⟩
  | newline =>
    have h : (newline true).map (fun t => [t]) = some texts := h
    obtain ⟨t, ht, rfl⟩ := Option.map_eq_some_iff.mp h
    exact ⟨by simp, by simpa using isText_serialPrintf ht⟩
  | COM1_Handler c =>
    obtain ⟨before, hbefore, h⟩ := Option.bind_eq_some_iff.mp h
    obtain ⟨t, ht, rfl⟩ := Option.map_eq_some_iff.mp h
    refine ⟨by simp, fun u hu => ?_⟩
    rcases List.mem_append.mp hu with hu | hu
    · split at hbefore
      · obtain ⟨v, hv, rfl⟩ := Option.map_eq_some_iff.mp hbefore
        obtain rfl := List.mem_singleton.mp hu
        exact isText_serialPrintf hv
      · obtain rfl := Option.some.inj hbefore
        contradiction
    · obtain rfl := List.mem_singleton.mp hu
      exact isText_serialPrintf ht

lemma isText_of_requested {es : List (Event ι)} (h : t ∈ requested es) : IsText t := by
  rw [requested, asked, Multiset.mem_coe, List.mem_flatMap] at h
  obtain ⟨e, he, ht⟩ := h
  obtain ⟨e, -, rfl⟩ := List.mem_map.mp he
  cases e with
  | call p call => exact call.texts_spec.2 t ht
  | step p => contradiction

/-! ## What arrives -/

variable [Fintype ι] [DecidableEq ι]

/-- **The texts on the port are whole**, whoever sends them and in whatever order the processors
make their steps: one text that was asked for after the other, none twice, and the beginning of one
more. -/
theorem texts_whole (es : List (Event ι)) :
    ∃ (done : List (List Char)) (front : List Char), (after es).out = done.flatten ++ front ∧
      (∀ t ∈ done, IsText t) ∧ (done : Multiset (List Char)) ≤ requested es ∧
      (front = [] ∨ ∃ text, IsText text ∧ front <+: text ∧
        (done : Multiset (List Char)) + {text} ≤ requested es) := by
  obtain ⟨done, front, hout, hle, hfront⟩ := written_whole (es.map Event.atLock)
  refine ⟨done, front, hout,
    fun t ht => isText_of_requested (Multiset.mem_of_le hle (Multiset.mem_coe.mpr ht)), hle, ?_⟩
  refine hfront.imp_right fun ⟨text, hprefix, hmore⟩ => ⟨text, ?_, hprefix, hmore⟩
  exact isText_of_requested (Multiset.mem_of_le hmore
    (Multiset.mem_add.mpr (.inr (Multiset.mem_singleton_self text))))

end TurbOS.Serial
