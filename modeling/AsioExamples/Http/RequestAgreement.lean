import AsioExamples.Http.Server.RequestLanguage

/-!
# Requests of the clients

Both clients put a path and the name of a server into the same text. The first server's parser
gets them out again exactly if they have no byte that ends or breaks the part they stand in.
-/

namespace AsioExamples.Http

set_option autoImplicit false

open Recogniser Server.RequestParser

/-- What is streamed into the request buffer. -/
def formRequest (server path : Bytes) : Bytes :=
  str "GET " ++ path ++ str " HTTP/1.0\r\n" ++ (str "Host: " ++ server ++ str "\r\n") ++
    str "Accept: */*\r\n" ++ str "Connection: close\r\n\r\n"

/-- The constructor of `client` takes strings. -/
def AsyncClient.request (server path : Bytes) : Bytes := formRequest server path

/-- The arguments of `main` are streamed up to the first NUL. -/
def SyncClient.request (server path : Bytes) : Bytes := formRequest (cStr server) (cStr path)

def intended (server path : Bytes) : Request :=
  ⟨str "GET", path, some 1, some 0, [⟨str "Host", server⟩, ⟨str "Accept", str "*/*"⟩,
    ⟨str "Connection", str "close"⟩]⟩

def intendedHead (server path : Bytes) : RequestHead :=
  ⟨str "GET", path, str "1", str "0", [.header (str "Host") server,
    .header (str "Accept") (str "*/*"), .header (str "Connection") (str "close")]⟩

def Control (c : UInt8) : Prop := c.toNat ≤ 31 ∨ c.toNat = 127

/-- The parser takes the whole of `w` for the intended request. -/
def Understood (w server path : Bytes) : Prop :=
  let o := parse (reset, Request.fresh) w
  o.verdict = .yes ∧ o.consumed = w.length ∧ o.state.2 = intended server path

section Head
variable {server path : Bytes}

theorem intendedHead_bytes : (intendedHead server path).bytes = formRequest server path := by
  simp [intendedHead, formRequest, RequestHead.bytes, Line.bytes, crlf, str]

theorem not_control_iff (c : UInt8) : ¬ Control c ↔ isCtl (toInt c) = false := by
  rw [Bool.eq_false_iff, ne_eq, isCtl_iff]
  rfl

theorem valueByte_iff_not_control (c : UInt8) : dialect.valueByte c = true ↔ ¬ Control c := by
  rw [not_control_iff]
  simp [dialect]

theorem isUriByte_iff (c : UInt8) : isUriByte c = true ↔ ¬ Control c ∧ c ≠ chr ' ' := by
  rw [not_control_iff]
  simp [isUriByte]

theorem header_ok {name value : Bytes} (hne : name ≠ []) (hname : name.all isToken = true)
    (hvalue : value.all dialect.valueByte = true) : (Line.header name value).Ok dialect :=
  ⟨hne, List.all_eq_true.mp hname, List.all_eq_true.mp hvalue⟩

theorem intendedHead_wellFormed (hpath : ∀ c ∈ path, ¬ Control c ∧ c ≠ chr ' ')
    (hserver : ∀ c ∈ server, ¬ Control c) : (intendedHead server path).WellFormed dialect where
  method_ne := show str "GET" ≠ [] by decide
  method_token := by
    have hall : (str "GET").all isToken = true := by decide
    exact List.all_eq_true.mp hall
  uri_ne := fun h => Bool.noConfusion h
  uri_byte := fun c hc => (isUriByte_iff c).mpr (hpath c hc)
  major_ne := show str "1" ≠ [] by decide
  major_digit := by
    have hall : (str "1").all (fun c => isDigit (toInt c)) = true := by decide
    exact List.all_eq_true.mp hall
  minor_ne := show str "0" ≠ [] by decide
  minor_digit := by
    have hall : (str "0").all (fun c => isDigit (toInt c)) = true := by decide
    exact List.all_eq_true.mp hall
  lines_ok := by
    have haccept : (Line.header (str "Accept") (str "*/*")).Ok dialect := by
      apply header_ok <;> decide
    have hconnection : (Line.header (str "Connection") (str "close")).Ok dialect := by
      apply header_ok <;> decide
    have hhost : (Line.header (str "Host") server).Ok dialect := by
      apply header_ok
      · decide
      · decide
      · rw [List.all_eq_true]
        intro c hc
        exact (valueByte_iff_not_control c).mpr (hserver c hc)
    intro l hl
    simp only [intendedHead, List.mem_cons, List.not_mem_nil, or_false] at hl
    rcases hl with rfl | rfl | rfl
    · exact hhost
    · exact haccept
    · exact hconnection
  first_line := by
    intro l hl
    obtain rfl := Option.some.inj hl
    rfl

/-- Whatever bytes it is made of, a text that is understood names a path without blanks or
control bytes and a server without control bytes. -/
theorem bytes_of_understood {w : Bytes} (h : Understood w server path) :
    (∀ c ∈ path, ¬ Control c ∧ c ≠ chr ' ') ∧ ∀ c ∈ server, ¬ Control c := by
  obtain ⟨hyes, -, hrequest⟩ := h
  obtain ⟨m, hm, hw⟩ := head_of_parse hyes
  obtain ⟨-, -, hstate⟩ := parse_of_head hm (consumed_le _ _ w) hw
  have hparts : m.request = intended server path := hstate.symm.trans hrequest
  have huri : m.uri = path := congrArg Request.uri hparts
  have hheaders : m.headers = (intended server path).headers := congrArg Request.headers hparts
  constructor
  · intro c hc
    exact (isUriByte_iff c).mp (hm.uri_byte c (huri ▸ hc))
  · intro c hc
    have hhost : ⟨str "Host", server⟩ ∈ m.headers := by
      rw [hheaders]
      exact List.mem_cons_self
    exact (valueByte_iff_not_control c).mp (hm.valueByte _ hhost c hc)

theorem understood_formRequest (hpath : ∀ c ∈ path, ¬ Control c ∧ c ≠ chr ' ')
    (hserver : ∀ c ∈ server, ¬ Control c) : Understood (formRequest server path) server path := by
  have hm := intendedHead_wellFormed hpath hserver
  have hw : (formRequest server path).take (formRequest server path).length =
      (intendedHead server path).bytes := by
    rw [List.take_length, intendedHead_bytes]
  obtain ⟨hyes, hcons, hstate⟩ := parse_of_head hm (Nat.le_refl _) hw
  exact ⟨hyes, hcons, hstate⟩

theorem cStr_of_not_control {s : Bytes} (h : ∀ c ∈ s, ¬ Control c) : cStr s = s := by
  apply cStr_eq_self
  intro hc
  exact h 0 hc (.inl (Nat.zero_le _))

end Head

/-- The parser understands the request of a client exactly if the path has no control byte and
no space and the name of the server has no control byte. -/
theorem requests_understood_iff (server path : Bytes) :
    (Understood (AsyncClient.request server path) server path ↔
        (∀ c ∈ path, ¬ Control c ∧ c ≠ chr ' ') ∧ ∀ c ∈ server, ¬ Control c) ∧
      (Understood (SyncClient.request server path) server path ↔
        (∀ c ∈ path, ¬ Control c ∧ c ≠ chr ' ') ∧ ∀ c ∈ server, ¬ Control c) := by
  refine ⟨⟨bytes_of_understood, ?_⟩, bytes_of_understood, ?_⟩
  · rintro ⟨hpath, hserver⟩
    exact understood_formRequest hpath hserver
  · rintro ⟨hpath, hserver⟩
    unfold SyncClient.request
    rw [cStr_of_not_control hserver, cStr_of_not_control fun c hc => (hpath c hc).1]
    exact understood_formRequest hpath hserver

end AsioExamples.Http
