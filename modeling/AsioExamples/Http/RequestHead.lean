import AsioExamples.Http.Request

/-!
# Request heads

The language the parsers are for, stated on the parts of a head rather than on parser
states: a method, a uri, two version numbers and header lines, the later of which may be
continuations. The parsers differ in two details only, collected in `Dialect`.
-/

namespace AsioExamples.Http

set_option autoImplicit false

/-- Whether an empty uri is taken, and which bytes a header value may hold. -/
structure Dialect where
  emptyUri : Bool
  valueByte : UInt8 → Bool
  valueByte_cr : valueByte (chr '\r') = false

def crlf : Bytes := [chr '\r', chr '\n']

def isUriByte (c : UInt8) : Bool := !isCtl (toInt c) && c != chr ' '

inductive Line where
  | header (name value : Bytes)
  | continuation (blanks text : Bytes)
deriving DecidableEq, Repr

namespace Line

def bytes : Line → Bytes
  | header name value => name ++ chr ':' :: chr ' ' :: (value ++ crlf)
  | continuation blanks text => blanks ++ (text ++ crlf)

/-- All leading blanks of a continuation are in `blanks`, so its text starts with none. -/
def Ok (d : Dialect) : Line → Prop
  | header name value =>
    name ≠ [] ∧ (∀ c ∈ name, isToken c = true) ∧ ∀ c ∈ value, d.valueByte c = true
  | continuation blanks text =>
    blanks ≠ [] ∧ (∀ c ∈ blanks, isBlank c = true) ∧ (∀ c ∈ text, d.valueByte c = true) ∧
      ∀ c ∈ text.head?, isBlank c = false

def isContinuation : Line → Bool
  | header _ _ => false
  | continuation _ _ => true

/-- A continuation goes on with the value of the latest header. -/
def addTo (hs : List Header) : Line → List Header
  | header name value => hs ++ [⟨name, value⟩]
  | continuation _ text => modifyBack (fun h => { h with value := h.value ++ text }) hs

def text : Line → Bytes
  | header _ value => value
  | continuation _ text => text

/-- The texts of the lines end up in the header values, and nothing else does. -/
theorem forall_foldl_addTo {P : UInt8 → Prop} {hs : List Header} {ls : List Line}
    (hfirst : hs = [] → ∀ l ∈ ls.head?, l.isContinuation = false) :
    (∀ h ∈ ls.foldl addTo hs, ∀ c ∈ h.value, P c) ↔
      (∀ h ∈ hs, ∀ c ∈ h.value, P c) ∧ ∀ l ∈ ls, ∀ c ∈ l.text, P c := by
  induction ls generalizing hs with
  | nil => simp
  | cons l ls ih =>
    cases l with
    | header name value =>
      rw [List.foldl_cons, addTo, ih (fun h => absurd h (by simp))]
      simp only [List.forall_mem_append, List.forall_mem_singleton, List.forall_mem_cons,
        text, and_assoc]
    | continuation blanks more =>
      have hne : hs ≠ [] := by
        intro hnil
        simpa [isContinuation] using hfirst hnil
      obtain ⟨init, last, rfl⟩ := (List.eq_nil_or_concat hs).resolve_left hne
      rw [List.foldl_cons, addTo, ih (fun h => absurd h (by simp)), List.concat_eq_append,
        modifyBack_concat]
      simp only [List.forall_mem_append, List.forall_mem_singleton, List.forall_mem_cons,
        text, and_assoc]

theorem Ok.valueByte {d : Dialect} {l : Line} (h : l.Ok d) :
    ∀ c ∈ l.text, d.valueByte c = true := by
  cases l with
  | header name value => exact h.2.2
  | continuation blanks text => exact h.2.2.1

end Line

structure RequestHead where
  method : Bytes
  uri : Bytes
  major : Bytes
  minor : Bytes
  lines : List Line

namespace RequestHead

def bytes (m : RequestHead) : Bytes :=
  m.method ++ chr ' ' :: (m.uri ++ chr ' ' :: (str "HTTP/" ++ (m.major ++ chr '.' ::
    (m.minor ++ crlf ++ (m.lines.flatMap Line.bytes ++ crlf)))))

structure WellFormed (d : Dialect) (m : RequestHead) : Prop where
  method_ne : m.method ≠ []
  method_token : ∀ c ∈ m.method, isToken c = true
  uri_ne : d.emptyUri = false → m.uri ≠ []
  uri_byte : ∀ c ∈ m.uri, isUriByte c = true
  major_ne : m.major ≠ []
  major_digit : ∀ c ∈ m.major, isDigit (toInt c) = true
  minor_ne : m.minor ≠ []
  minor_digit : ∀ c ∈ m.minor, isDigit (toInt c) = true
  lines_ok : ∀ l ∈ m.lines, l.Ok d
  first_line : ∀ l ∈ m.lines.head?, l.isContinuation = false

def headers (m : RequestHead) : List Header := m.lines.foldl Line.addTo []

theorem WellFormed.valueByte {d : Dialect} {m : RequestHead} (hm : m.WellFormed d) :
    ∀ h ∈ m.headers, ∀ c ∈ h.value, d.valueByte c = true := by
  apply (Line.forall_foldl_addTo (P := fun c => d.valueByte c = true) fun _ => hm.first_line).mpr
  refine ⟨fun h hh => absurd hh List.not_mem_nil, fun l hl => (hm.lines_ok l hl).valueByte⟩

def version (digits : Bytes) : Int32 := digits.foldl Request.digitInto 0

def request (m : RequestHead) : Request :=
  ⟨m.method, m.uri, some (version m.major), some (version m.minor), m.headers⟩

def Language (d : Dialect) (w : Bytes) : Prop := ∃ m : RequestHead, m.WellFormed d ∧ m.bytes = w

end RequestHead

end AsioExamples.Http
