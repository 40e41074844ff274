/-!
Plain text, as a log shows it: a text without its control characters and without the control
sequences that would steer a terminal. White space stays.
-/

namespace PxdStub.Text

/-- Where a character stands: in the text itself, or in a control sequence, which begins with an
escape character. Strings belong to sequences that take a text of any length. -/
inductive Control where
  | text
  | escape
  | escapeTail
  | sequence
  | deviceStart
  | deviceParameters
  | deviceTail
  | string
  | title
  deriving DecidableEq, Repr

def isSpacing (c : Char) : Bool :=
  c == '\t' || c == '\n' || c == '\x0c' || c == '\r'

def isVisible (c : Char) : Bool :=
  isSpacing c || (0x20 ≤ c.toNat && c.toNat != 0x7F)

/-- Characters whose UTF-8 form holds the byte that ends a string. -/
def endsString (c : Char) : Bool :=
  (String.utf8EncodeChar c).contains 0x9C

namespace Control

/-- Characters that are shown at a place. White space is shown inside short sequences too. -/
def shows : Control → Char → Bool
  | text, c => isVisible c
  | escape, c | escapeTail, c | sequence, c => isSpacing c
  | _, _ => false

/-- The place behind a character right behind the escape character. -/
def afterEscape (c : Char) : Control :=
  if 0x20 ≤ c.toNat && c.toNat ≤ 0x2F then escapeTail
  else if c = '[' then sequence
  else if c = ']' then title
  else if c = 'P' then deviceStart
  else if c = 'X' || c = '^' || c = '_' then string
  else if 0x30 ≤ c.toNat && c.toNat ≤ 0x7E then text
  else escape

/-- The place behind a character in the head of a string for a device. -/
def afterDevice (here : Control) (c : Char) : Control :=
  let n := c.toNat
  if n < 0x20 || 0x7E < n then here
  else if 0x40 ≤ n then string
  else if n ≤ 0x2F then deviceTail
  else if here = deviceStart then deviceParameters
  else if here = deviceParameters && n ≤ 0x3B then here
  else string

/-- The place behind a character that is not shown. An escape character begins a new sequence
everywhere, and a cancel or substitute character leaves every sequence. -/
def after (here : Control) (c : Char) : Control :=
  if c = '\x1b' then escape
  else if c = '\x18' || c = '\x1a' then text
  else match here with
    | text => text
    | escape => afterEscape c
    | escapeTail => if 0x30 ≤ c.toNat && c.toNat ≤ 0x7E then text else escapeTail
    | sequence => if 0x40 ≤ c.toNat && c.toNat ≤ 0x7E then text else sequence
    | deviceStart | deviceParameters | deviceTail => afterDevice here c
    | string => if endsString c then text else string
    | title => if c = '\x07' then text else title

end Control

/-- The plain text of what stands at a place. White space in a sequence interrupts it: text is shown
until a control character takes the sequence up again, or for good once it is not ASCII. -/
def plainFrom (here : Control) (interrupted : Bool) : List Char → List Char
  | [] => []
  | c :: rest =>
      if interrupted && isVisible c then
        c :: plainFrom (if c.toNat < 0x80 then here else .text) true rest
      else if here.shows c then c :: plainFrom here true rest
      else plainFrom (here.after c) false rest

def plain (text : String) : String :=
  String.ofList (plainFrom .text false text.toList)

/-- Visible characters outside control sequences are all shown. -/
theorem plainFrom_eq_self {text : List Char} (visible : ∀ c ∈ text, isVisible c = true)
    (interrupted : Bool) : plainFrom .text interrupted text = text := by
  induction text generalizing interrupted with
  | nil => rfl
  | cons c rest ih =>
      have here : isVisible c = true := visible c (by simp)
      have later := ih fun d member => visible d (List.mem_cons_of_mem c member)
      simp [plainFrom, Control.shows, here, later]

theorem plain_eq_self {text : String} (visible : ∀ c ∈ text.toList, isVisible c = true) :
    plain text = text := by
  rw [plain, plainFrom_eq_self visible, String.ofList_toList]

end PxdStub.Text
