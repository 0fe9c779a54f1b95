import TurbOS.Str.Buffer
import TurbOS.Lib.Runs

/-!
# The keyboard driver

`Keyboard_Handler` runs on every keyboard interrupt and `getLine` in the thread that waits for a
line.  They share the buffer `buff` of what stands on the screen, the character `c`, the flags
`pressed` and `enter`, and the array `retstr` with its index `gi`.

The handler runs with interrupts disabled, so an interrupt is one step.  `getLine` is cut into
steps at every access to what the handler may change.  Only the holder of `getLine_lock` makes
steps; other callers wait until the call returns.

What is printed is left out, and so is `acpi::reboot`, after which nothing happens.
-/

namespace TurbOS.Keyboard

/-- `kbdus`: the characters of the keys. Entries that are not listed are zero. -/
def kbdus : List Char :=
  ['\x00', '\x1b', '&', 'e', '\x22', '\x27', '(', '-', 'e', '_', 'c', 'a', ')', '=', '\x08', '\t',
    'a', 'z', 'e', 'r', 't', 'y', 'u', 'i', 'o', 'p', '^', '$', '\n', '\x00', 'q', 's', 'd', 'f',
    'g', 'h', 'j', 'k', 'l', 'm', 'u', '*', '\x00', '<', 'w', 'x', 'c', 'v', 'b', 'n', ',', ';',
    ':', '!', '\x00', '*', '\x00', ' ', '\x00', '\x00', '\x00', '\x00', '\x00', '\x00', '\x00',
    '\x00', '\x00', '\x00', '\x00', '\x00', '\x00', '\x00', '\x00', '\x00', '-', '\x00', '\x00',
    '\x00', '+']

/-- `kbdus_shft`. -/
def kbdusShft : List Char :=
  ['\x00', '\x1b', '1', '2', '3', '4', '5', '6', '7', '8', '9', '0', '*', '+', '\x08', '\t', 'A',
    'Z', 'E', 'R', 'T', 'Y', 'U', 'I', 'O', 'P', '^', 'E', '\n', '\x00', 'Q', 'S', 'D', 'F', 'G',
    'H', 'J', 'K', 'L', 'M', '%', 'u', '\x00', '<', 'W', 'X', 'C', 'V', 'B', 'N', '?', '.', '/',
    'S', '\x00', '*', '\x00', ' ', '\x00', '\x00', '\x00', '\x00', '\x00', '\x00', '\x00', '\x00',
    '\x00', '\x00', '\x00', '\x00', '\x00', '\x00', '\x00', '\x00', '-', '\x00', '\x00', '\x00',
    '+']

/-- `kbdus_caps`; it has the entries of `kbdus_shft`. -/
def kbdusCaps : List Char := kbdusShft

/-- `kbdus_capsshft`; it has the entries of `kbdus`. -/
def kbdusCapsshft : List Char := kbdus

/-- `kbd_mod_t`. -/
structure KbdMod where
  shift : Bool := false
  ctrl : Bool := false
  alt : Bool := false
  numlock : Bool := false
  capslock : Bool := false
  scrolllock : Bool := false
deriving DecidableEq, Repr

/-- `get_ascii_char`. -/
def getAsciiChar (m : KbdMod) (keyCode : UInt8) : Char :=
  let table := if m.shift then (if m.capslock then kbdusCapsshft else kbdusShft)
    else if m.capslock then kbdusCaps else kbdus
  table.getD keyCode.toNat '\x00'

/-- The variables of the driver, and a record of the indices at which `retstr` was used that
nothing reads. -/
structure Driver where
  kbdMod : KbdMod := {}
  retstr : List Char := List.replicate 1024 '\x00'
  reading : Bool := false
  gi : ℤ := 0
  pressed : Bool := false
  enter : Bool := false
  buff : List Char := List.replicate 1024 '\x00'
  c : List Char := List.replicate 10 '\x00'
  /-- The indices at which `retstr` was used. -/
  indexed : List ℤ := []
deriving DecidableEq, Repr

/-! ## The handler -/

/-- `retstr[i] = ch`.  Outside the array it changes something else. -/
def Driver.poke (k : Driver) (i : ℤ) (ch : Char) : Driver :=
  { k with
    retstr := if 0 ≤ i then k.retstr.set i.toNat ch else k.retstr
    indexed := i :: k.indexed }

/-- The loop of `clearBuffer`: `strlen` is computed again in every round. -/
def clearLoop : ℕ → ℕ → List Char → Option (List Char)
  | 0, _, _ => none
  | fuel + 1, i, buff =>
    (Str.text buff).bind fun s =>
      if i < s.length then clearLoop fuel (i + 1) (buff.set i '\x00') else some buff

/-- `clearBuffer`. -/
def clearBuffer (k : Driver) : Option Driver :=
  (clearLoop (k.buff.length + 1) 0 k.buff).map fun buff => { k with buff := buff }

/-- `handle_comb`. -/
def handleComb (scancode : UInt8) (k : Driver) : Option Driver :=
  let ch := getAsciiChar k.kbdMod scancode
  if k.kbdMod.ctrl ∧ k.kbdMod.alt ∧ scancode = 0x53 then some k
  else if k.kbdMod.ctrl ∧ (ch = 'l' ∨ ch = 'L') then
    (clearBuffer k).map fun k =>
      if k.reading then { k with retstr := List.replicate 1024 '\x00', enter := true } else k
  else some k

/-- The inner `switch` of the handler, on the character in `c`. -/
def typeChar (ch : Char) (k : Driver) : Option Driver :=
  if ch = '\n' then (clearBuffer k).map fun k => { k with enter := true }
  else if ch = '\x08' then
    if k.buff.head? = some '\x00' then some k
    else
      (Str.text k.buff).map fun s =>
        let k := { k with buff := k.buff.set (s.length - 1) '\x00' }
        if k.reading then { k.poke (k.gi - 1) '\x00' with gi := k.gi - 1 } else k
  else
    (Str.text k.c).bind fun c =>
      (Str.strcat k.buff c).map fun buff => { k with pressed := true, buff := buff }

/-- The keys without a case of their own: the character is put into `c`. -/
def otherKey (scancode : UInt8) (k : Driver) : Option Driver :=
  (Str.text k.c).bind fun s =>
    let ch := getAsciiChar k.kbdMod scancode
    let k := { k with c := (List.replicate s.length '\x00' ++ k.c.drop s.length).set 0 ch }
    if k.kbdMod.alt ∨ k.kbdMod.ctrl then handleComb scancode k else typeChar ch k

/-- An arrow key leaves its escape sequence in `c`. -/
def arrowKey (ch : Char) (k : Driver) : Option Driver :=
  (Str.strcpy k.c ['\x1b', '[', ch]).map fun c => { k with c := c }

/-- A key is released. -/
def keyUp (scancode : UInt8) (k : Driver) : Driver :=
  match scancode with
  | 0xAA | 0xB6 => { k with kbdMod := { k.kbdMod with shift := false } }
  | 0x9D => { k with kbdMod := { k.kbdMod with ctrl := false } }
  | 0xB8 => { k with kbdMod := { k.kbdMod with alt := false } }
  | _ => k

/-- A key is pressed. -/
def keyDown (scancode : UInt8) (k : Driver) : Option Driver :=
  match scancode with
  | 0x2A | 0x36 => some { k with kbdMod := { k.kbdMod with shift := true } }
  | 0x1D => some { k with kbdMod := { k.kbdMod with ctrl := true } }
  | 0x38 => some { k with kbdMod := { k.kbdMod with alt := true } }
  | 0x3A => some { k with kbdMod := { k.kbdMod with capslock := !k.kbdMod.capslock } }
  | 0x45 => some { k with kbdMod := { k.kbdMod with numlock := !k.kbdMod.numlock } }
  | 0x46 => some { k with kbdMod := { k.kbdMod with scrolllock := !k.kbdMod.scrolllock } }
  | 0x48 => arrowKey 'A' k
  | 0x50 => arrowKey 'B' k
  | 0x4D => arrowKey 'C' k
  | 0x4B => arrowKey 'D' k
  | scancode => otherKey scancode k

/-- `Keyboard_Handler`. -/
def keyboardHandler (scancode : UInt8) (k : Driver) : Option Driver :=
  if scancode &&& 0x80 ≠ 0 then some (keyUp scancode k) else keyDown scancode k

/-! ## The reader -/

/-- Where the call of `getLine` stands: the statement that comes next. -/
inductive Reader
  /-- No call is in progress. -/
  | idle
  /-- `reading = true`. -/
  | start
  /-- `memset(retstr, 0, 1024)`. -/
  | clear
  /-- `while (!enter)`. -/
  | top
  /-- `if (pressed)`. -/
  | poll
  /-- `if (gi >= 1024 - 1)`. -/
  | check
  /-- In `getchar`: `while (!pressed)`. -/
  | wait
  /-- In `getchar`: `pressed = false`. -/
  | take
  /-- In `getchar`: `return c[0]`. -/
  | fetch
  /-- `retstr[gi] = ch`. -/
  | store (ch : Char)
  /-- `gi++` reads `gi`. -/
  | load
  /-- `gi++` writes `v + 1`. -/
  | bump (v : ℤ)
  /-- `enter = false`, on the way out; with or without a line. -/
  | dropEnter (line : Bool)
  /-- `reading = false`. -/
  | dropReading (line : Bool)
  /-- `gi = 0`. -/
  | dropIndex (line : Bool)
  /-- Unlock and return. -/
  | leave (line : Bool)
deriving DecidableEq, Repr

/-- The driver, the call of `getLine` in progress, and what the calls before have returned. -/
structure Machine where
  kbd : Driver := {}
  reader : Reader := .idle
  lines : List (Option (List Char)) := []
deriving DecidableEq, Repr

/-- One step of `getLine`. -/
def getLineStep (m : Machine) : Machine :=
  match m.reader with
  | .idle => m
  | .start => { m with kbd := { m.kbd with reading := true }, reader := .clear }
  | .clear => { m with kbd := { m.kbd with retstr := List.replicate 1024 '\x00' }, reader := .top }
  | .top => { m with reader := if m.kbd.enter then .dropEnter true else .poll }
  | .poll => { m with reader := if m.kbd.pressed then .check else .top }
  | .check => { m with reader := if 1023 ≤ m.kbd.gi then .dropEnter false else .wait }
  | .wait => { m with reader := if m.kbd.pressed then .take else .wait }
  | .take => { m with kbd := { m.kbd with pressed := false }, reader := .fetch }
  | .fetch => { m with reader := .store (m.kbd.c.headD '\x00') }
  | .store ch => { m with kbd := m.kbd.poke m.kbd.gi ch, reader := .load }
  | .load => { m with reader := .bump m.kbd.gi }
  | .bump v => { m with kbd := { m.kbd with gi := v + 1 }, reader := .top }
  | .dropEnter line => { m with kbd := { m.kbd with enter := false }, reader := .dropReading line }
  | .dropReading line =>
    { m with kbd := { m.kbd with reading := false }, reader := .dropIndex line }
  | .dropIndex line => { m with kbd := { m.kbd with gi := 0 }, reader := .leave line }
  | .leave line =>
    { m with
      reader := .idle
      lines := (if line then some (m.kbd.retstr.takeWhile (· ≠ '\x00')) else none) :: m.lines }

/-- What happens next: a keyboard interrupt, a call of `getLine`, or a step of the call that is in
progress. -/
inductive Action
  | key (scancode : UInt8)
  | call
  | run
deriving DecidableEq, Repr

/-- One step of the machine.  A call waits for `getLine_lock` while another one is in progress. -/
def step (a : Action) (m : Machine) : Option Machine :=
  match a with
  | .key scancode => (keyboardHandler scancode m.kbd).map fun kbd => { m with kbd := kbd }
  | .call => some (if m.reader = .idle then { m with reader := .start } else m)
  | .run => some (getLineStep m)

/-- The machine after `keyboard::init`. -/
def boot : Machine := {}

end TurbOS.Keyboard
