import AsioExamples.Http.RequestHead
import AsioExamples.Theory.Grammar
import AsioExamples.Theory.Recogniser

/-!
# The one-byte reader of request heads

`advance` reads a head of either dialect one byte at a time. `residual` is what is left to
read at each stage, built from the right, and `describes` says that the two belong together.
The parsers of the repository are compared with `advance` and not with each other.
-/

namespace AsioExamples.Http

set_option autoImplicit false

open Recogniser Grammar

inductive Stage where
  | methodStart | method | uri
  | h | t1 | t2 | p | slash
  | majorStart | major | minorStart | minor | newline1
  | lineStart | lws | name | space | value | newline2 | newline3
deriving DecidableEq, Repr

section Advance
variable (d : Dialect)

def expect (r : Request) (c want : UInt8) (s next : Stage) : Tribool × Stage × Request :=
  if c = want then (.indeterminate, next, r) else (.no, s, r)

def advanceValue (s : Stage) (r : Request) (c : UInt8) : Tribool × Stage × Request :=
  if c = chr '\r' then (.indeterminate, .newline2, r)
  else if d.valueByte c then (.indeterminate, .value, r.pushValue c)
  else (.no, s, r)

def advance (p : Stage × Request) (c : UInt8) : Tribool × Stage × Request :=
  let (s, r) := p
  match s with
  | .methodStart => if isToken c then (.indeterminate, .method, r.pushMethod c) else (.no, s, r)
  | .method =>
    if c = chr ' ' then (.indeterminate, .uri, r)
    else if isToken c then (.indeterminate, .method, r.pushMethod c)
    else (.no, s, r)
  | .uri =>
    if c = chr ' ' then
      if d.emptyUri || !r.uri.isEmpty then (.indeterminate, .h, r) else (.no, s, r)
    else if isUriByte c then (.indeterminate, .uri, r.pushUri c)
    else (.no, s, r)
  | .h => expect r c (chr 'H') s .t1
  | .t1 => expect r c (chr 'T') s .t2
  | .t2 => expect r c (chr 'T') s .p
  | .p => expect r c (chr 'P') s .slash
  | .slash => if c = chr '/' then (.indeterminate, .majorStart, r.resetVersion) else (.no, s, r)
  | .majorStart =>
    if isDigit (toInt c) then (.indeterminate, .major, r.pushMajor c) else (.no, s, r)
  | .major =>
    if c = chr '.' then (.indeterminate, .minorStart, r)
    else if isDigit (toInt c) then (.indeterminate, .major, r.pushMajor c)
    else (.no, s, r)
  | .minorStart =>
    if isDigit (toInt c) then (.indeterminate, .minor, r.pushMinor c) else (.no, s, r)
  | .minor =>
    if c = chr '\r' then (.indeterminate, .newline1, r)
    else if isDigit (toInt c) then (.indeterminate, .minor, r.pushMinor c)
    else (.no, s, r)
  | .newline1 => expect r c (chr '\n') s .lineStart
  | .lineStart =>
    if c = chr '\r' then (.indeterminate, .newline3, r)
    else if !r.headers.isEmpty && isBlank c then (.indeterminate, .lws, r)
    else if isToken c then (.indeterminate, .name, r.pushHeader.pushName c)
    else (.no, s, r)
  | .lws => if isBlank c then (.indeterminate, .lws, r) else advanceValue d s r c
  | .name =>
    if c = chr ':' then (.indeterminate, .space, r)
    else if isToken c then (.indeterminate, .name, r.pushName c)
    else (.no, s, r)
  | .space => expect r c (chr ' ') s .value
  | .value => advanceValue d s r c
  | .newline2 => expect r c (chr '\n') s .lineStart
  | .newline3 => if c = chr '\n' then (.yes, s, r) else (.no, s, r)

/-! What is left to read at each stage. -/

def endRule : Rule Request UInt8 := fun r w out => w = [] ∧ out = r

/-- The header lines left, the blank line after them, and nothing more. -/
def linesRule : Rule Request UInt8 := fun r w out =>
  ∃ ls : List Line, (∀ l ∈ ls, l.Ok d) ∧
    (r.headers = [] → ∀ l ∈ ls.head?, l.isContinuation = false) ∧
    w = ls.flatMap Line.bytes ++ crlf ∧ out = { r with headers := ls.foldl Line.addTo r.headers }

def newlineRule : Rule Request UInt8 := lit (chr '\n') (linesRule d)

def valueRule : Rule Request UInt8 := field d.valueByte (chr '\r') Request.pushValue (newlineRule d)

def lwsRule : Rule Request UInt8 := skip isBlank (valueRule d)

def spaceRule : Rule Request UInt8 := lit (chr ' ') (valueRule d)

def nameRule : Rule Request UInt8 := field isToken (chr ':') Request.pushName (spaceRule d)

def minorRule : Rule Request UInt8 :=
  field (fun c => isDigit (toInt c)) (chr '\r') Request.pushMinor (newlineRule d)

def minorStartRule : Rule Request UInt8 :=
  one (fun c => isDigit (toInt c)) Request.pushMinor (minorRule d)

def majorRule : Rule Request UInt8 :=
  field (fun c => isDigit (toInt c)) (chr '.') Request.pushMajor (minorStartRule d)

def majorStartRule : Rule Request UInt8 :=
  one (fun c => isDigit (toInt c)) Request.pushMajor (majorRule d)

def slashRule : Rule Request UInt8 := lit (chr '/') fun r => majorStartRule d r.resetVersion

def pRule : Rule Request UInt8 := lit (chr 'P') (slashRule d)

def t2Rule : Rule Request UInt8 := lit (chr 'T') (pRule d)

def t1Rule : Rule Request UInt8 := lit (chr 'T') (t2Rule d)

def hRule : Rule Request UInt8 := lit (chr 'H') (t1Rule d)

def uriRule : Rule Request UInt8 :=
  field isUriByte (chr ' ') Request.pushUri
    (Grammar.guard (fun r => d.emptyUri = false → r.uri ≠ []) (hRule d))

def methodRule : Rule Request UInt8 := field isToken (chr ' ') Request.pushMethod (uriRule d)

def methodStartRule : Rule Request UInt8 := one isToken Request.pushMethod (methodRule d)

def residual : Stage → Rule Request UInt8
  | .methodStart => methodStartRule d
  | .method => methodRule d
  | .uri => uriRule d
  | .h => hRule d
  | .t1 => t1Rule d
  | .t2 => t2Rule d
  | .p => pRule d
  | .slash => slashRule d
  | .majorStart => majorStartRule d
  | .major => majorRule d
  | .minorStart => minorStartRule d
  | .minor => minorRule d
  | .newline1 => newlineRule d
  | .lineStart => linesRule d
  | .lws => lwsRule d
  | .name => nameRule d
  | .space => spaceRule d
  | .value => valueRule d
  | .newline2 => newlineRule d
  | .newline3 => lit (chr '\n') endRule

end Advance

section Attributes
variable (r : Request)

theorem foldl_pushMethod (v : Bytes) :
    v.foldl Request.pushMethod r = { r with method := r.method ++ v } := by
  induction v generalizing r with
  | nil => simp
  | cons c v ih => simp [ih, Request.pushMethod]

theorem foldl_pushUri (v : Bytes) :
    v.foldl Request.pushUri r = { r with uri := r.uri ++ v } := by
  induction v generalizing r with
  | nil => simp
  | cons c v ih => simp [ih, Request.pushUri]

theorem foldl_pushMajor (v : Bytes) :
    v.foldl Request.pushMajor r =
      { r with httpVersionMajor := r.httpVersionMajor.map (v.foldl Request.digitInto) } := by
  induction v generalizing r with
  | nil => simp
  | cons c v ih => simp [ih, Request.pushMajor, Function.comp_def]

theorem foldl_pushMinor (v : Bytes) :
    v.foldl Request.pushMinor r =
      { r with httpVersionMinor := r.httpVersionMinor.map (v.foldl Request.digitInto) } := by
  induction v generalizing r with
  | nil => simp
  | cons c v ih => simp [ih, Request.pushMinor, Function.comp_def]

theorem foldl_pushName (v : Bytes) :
    v.foldl Request.pushName r =
      { r with headers := modifyBack (fun h => { h with name := h.name ++ v }) r.headers } := by
  induction v generalizing r with
  | nil => simp [modifyBack_id]
  | cons c v ih => simp [ih, Request.pushName, modifyBack_modifyBack]

theorem foldl_pushValue (v : Bytes) :
    v.foldl Request.pushValue r =
      { r with headers := modifyBack (fun h => { h with value := h.value ++ v }) r.headers } := by
  induction v generalizing r with
  | nil => simp [modifyBack_id]
  | cons c v ih => simp [ih, Request.pushValue, modifyBack_modifyBack]

end Attributes

section Lines
variable {d : Dialect} {r out : Request} {w : Bytes}

theorem linesRule_of_ne_nil (hr : r.headers ≠ []) :
    linesRule d r w out ↔ ∃ ls : List Line, (∀ l ∈ ls, l.Ok d) ∧
      w = ls.flatMap Line.bytes ++ crlf ∧
      out = { r with headers := ls.foldl Line.addTo r.headers } := by
  simp [linesRule, hr]

theorem valueRule_iff :
    valueRule d r w out ↔ ∃ v rest, w = v ++ (crlf ++ rest) ∧ (∀ c ∈ v, d.valueByte c = true) ∧
      linesRule d (v.foldl Request.pushValue r) rest out := by
  constructor
  · rintro ⟨v, _, rfl, hv, rest, rfl, hrest⟩
    exact ⟨v, rest, rfl, hv, hrest⟩
  · rintro ⟨v, rest, rfl, hv, hrest⟩
    exact ⟨v, _, rfl, hv, rest, rfl, hrest⟩

theorem nameRule_iff :
    nameRule d r w out ↔ ∃ n v rest, w = n ++ chr ':' :: chr ' ' :: (v ++ (crlf ++ rest)) ∧
      (∀ c ∈ n, isToken c = true) ∧ (∀ c ∈ v, d.valueByte c = true) ∧
      linesRule d (v.foldl Request.pushValue (n.foldl Request.pushName r)) rest out := by
  constructor
  · rintro ⟨n, _, rfl, hn, _, rfl, hvalue⟩
    obtain ⟨v, rest, rfl, hv, hrest⟩ := valueRule_iff.mp hvalue
    exact ⟨n, v, rest, rfl, hn, hv, hrest⟩
  · rintro ⟨n, v, rest, rfl, hn, hv, hrest⟩
    exact ⟨n, _, rfl, hn, _, rfl, valueRule_iff.mpr ⟨v, rest, rfl, hv, hrest⟩⟩

theorem lwsRule_iff :
    lwsRule d r w out ↔ ∃ bl t rest, w = bl ++ (t ++ (crlf ++ rest)) ∧
      (∀ c ∈ bl, isBlank c = true) ∧ (∀ c ∈ t, d.valueByte c = true) ∧
      (∀ c ∈ t.head?, isBlank c = false) ∧
      linesRule d (t.foldl Request.pushValue r) rest out := by
  constructor
  · rintro ⟨bl, _, rfl, hbl, hhead, hvalue⟩
    obtain ⟨t, rest, rfl, ht, hrest⟩ := valueRule_iff.mp hvalue
    refine ⟨bl, t, rest, rfl, hbl, ht, ?_, hrest⟩
    cases t with
    | nil => simp
    | cons c t => simpa using hhead
  · rintro ⟨bl, t, rest, rfl, hbl, ht, hhead, hrest⟩
    refine ⟨bl, _, rfl, hbl, ?_, valueRule_iff.mpr ⟨t, rest, rfl, ht, hrest⟩⟩
    cases t with
    | nil => simp [crlf, show isBlank (chr '\r') = false by decide]
    | cons c t => simpa using hhead

theorem pushHeader_name_value (c : UInt8) (n v : Bytes) :
    v.foldl Request.pushValue (n.foldl Request.pushName (r.pushHeader.pushName c)) =
      { r with headers := r.headers ++ [⟨c :: n, v⟩] } := by
  simp [foldl_pushValue, foldl_pushName, Request.pushHeader, Request.pushName]

theorem linesRule_cons_of_header {n v : Bytes} {ls : List Line} {b : UInt8}
    (hok : ∀ l ∈ Line.header n v :: ls, l.Ok d)
    (he : b :: w = (Line.header n v :: ls).flatMap Line.bytes ++ crlf)
    (ho : out = { r with headers := (Line.header n v :: ls).foldl Line.addTo r.headers }) :
    isToken b = true ∧ nameRule d (r.pushHeader.pushName b) w out := by
  obtain ⟨hne, hn, hv⟩ := hok _ List.mem_cons_self
  obtain ⟨c, n, rfl⟩ := List.exists_cons_of_ne_nil hne
  simp only [List.flatMap_cons, Line.bytes, List.cons_append, List.append_assoc] at he
  obtain ⟨rfl, rfl⟩ := List.cons.inj he
  refine ⟨hn b List.mem_cons_self, nameRule_iff.mpr ⟨n, v, _, rfl, ?_, hv, ?_⟩⟩
  · exact fun x hx => hn x (List.mem_cons_of_mem b hx)
  · rw [pushHeader_name_value]
    refine (linesRule_of_ne_nil (by simp)).mpr ⟨ls, ?_, rfl, ho⟩
    exact fun l hl => hok l (List.mem_cons_of_mem _ hl)

theorem linesRule_cons_of_continuation {bl t : Bytes} {ls : List Line} {b : UInt8}
    (hr : r.headers ≠ []) (hok : ∀ l ∈ Line.continuation bl t :: ls, l.Ok d)
    (he : b :: w = (Line.continuation bl t :: ls).flatMap Line.bytes ++ crlf)
    (ho : out = { r with headers := (Line.continuation bl t :: ls).foldl Line.addTo r.headers }) :
    isBlank b = true ∧ lwsRule d r w out := by
  obtain ⟨hne, hbl, ht, hhead⟩ := hok _ List.mem_cons_self
  obtain ⟨c, bl, rfl⟩ := List.exists_cons_of_ne_nil hne
  simp only [List.flatMap_cons, Line.bytes, List.cons_append, List.append_assoc] at he
  obtain ⟨rfl, rfl⟩ := List.cons.inj he
  refine ⟨hbl b List.mem_cons_self, lwsRule_iff.mpr ⟨bl, t, _, rfl, ?_, ht, hhead, ?_⟩⟩
  · exact fun x hx => hbl x (List.mem_cons_of_mem b hx)
  · rw [foldl_pushValue]
    refine (linesRule_of_ne_nil (by simpa using hr)).mpr ⟨ls, ?_, rfl, ho⟩
    exact fun l hl => hok l (List.mem_cons_of_mem _ hl)

theorem linesRule_of_nameRule {b : UInt8} (hb : isToken b = true)
    (h : nameRule d (r.pushHeader.pushName b) w out) : linesRule d r (b :: w) out := by
  obtain ⟨n, v, rest, rfl, hn, hv, hrest⟩ := nameRule_iff.mp h
  rw [pushHeader_name_value] at hrest
  obtain ⟨ls, hok, rfl, rfl⟩ := (linesRule_of_ne_nil (by simp)).mp hrest
  refine ⟨Line.header (b :: n) v :: ls, ?_, by simp [Line.isContinuation], ?_, rfl⟩
  · intro l hl
    rcases List.mem_cons.mp hl with rfl | hl
    · exact ⟨by simp, by simpa using ⟨hb, hn⟩, hv⟩
    · exact hok l hl
  · simp [Line.bytes]

theorem linesRule_of_lwsRule {b : UInt8} (hr : r.headers ≠ []) (hb : isBlank b = true)
    (h : lwsRule d r w out) : linesRule d r (b :: w) out := by
  obtain ⟨bl, t, rest, rfl, hbl, ht, hhead, hrest⟩ := lwsRule_iff.mp h
  rw [foldl_pushValue] at hrest
  obtain ⟨ls, hok, rfl, rfl⟩ := (linesRule_of_ne_nil (by simpa using hr)).mp hrest
  refine ⟨Line.continuation (b :: bl) t :: ls, ?_, fun hnil => absurd hnil hr, ?_, rfl⟩
  · intro l hl
    rcases List.mem_cons.mp hl with rfl | hl
    · exact ⟨by simp, by simpa using ⟨hb, hbl⟩, ht, hhead⟩
    · exact hok l hl
  · simp [Line.bytes]

theorem linesRule_cons (b : UInt8) :
    linesRule d r (b :: w) out ↔
      (b = chr '\r' ∧ w = [chr '\n'] ∧ out = r) ∨
      (r.headers ≠ [] ∧ isBlank b = true ∧ lwsRule d r w out) ∨
      (isToken b = true ∧ nameRule d (r.pushHeader.pushName b) w out) := by
  constructor
  · rintro ⟨ls, hok, hfirst, he, ho⟩
    cases ls with
    | nil =>
      obtain ⟨rfl, rfl⟩ := List.cons.inj he
      exact Or.inl ⟨rfl, rfl, ho⟩
    | cons l ls =>
      cases l with
      | header n v => exact Or.inr (Or.inr (linesRule_cons_of_header hok he ho))
      | continuation bl t =>
        have hr : r.headers ≠ [] := by
          intro hnil
          simpa [Line.isContinuation] using hfirst hnil
        exact Or.inr (Or.inl ⟨hr, linesRule_cons_of_continuation hr hok he ho⟩)
  · intro h
    rcases h with ⟨rfl, rfl, rfl⟩ | ⟨hr, hb, h⟩ | ⟨hb, h⟩
    · exact ⟨[], by simp, by simp, rfl, rfl⟩
    · exact linesRule_of_lwsRule hr hb h
    · exact linesRule_of_nameRule hb h

theorem not_linesRule_nil : ¬ linesRule d r [] out := by
  rintro ⟨ls, -, -, he, -⟩
  have := (List.append_eq_nil_iff.mp he.symm).2
  simp [crlf] at this

end Lines

/-- What is left to read after the answer `o`. -/
def Leads (d : Dialect) (o : Tribool × Stage × Request) (w : Bytes) (out : Request) : Prop :=
  match o with
  | (.indeterminate, s, r) => residual d s r w out
  | (.yes, _, r) => w = [] ∧ out = r
  | (.no, _, _) => False

section Reader
variable (d : Dialect) (r out : Request) (b : UInt8) (w : Bytes)

theorem leads_expect (c : UInt8) (s next : Stage) :
    Leads d (expect r b c s next) w out ↔ b = c ∧ residual d next r w out := by
  unfold expect
  split <;> simp [Leads, *]

theorem valueRule_cons (s : Stage) :
    valueRule d r (b :: w) out ↔ Leads d (advanceValue d s r b) w out := by
  unfold valueRule advanceValue
  rw [field_cons d.valueByte_cr]
  by_cases hcr : b = chr '\r'
  · subst b
    simp [Leads, residual, d.valueByte_cr]
  · simp only [hcr, false_and, false_or, if_false]
    split <;> simp [Leads, residual, valueRule, *]

theorem lwsRule_cons (s : Stage) :
    lwsRule d r (b :: w) out ↔ Leads d
      (if isBlank b then (.indeterminate, .lws, r) else advanceValue d s r b) w out := by
  unfold lwsRule
  cases hb : isBlank b with
  | true => simp [skip_cons_of_pos hb, Leads, residual, lwsRule]
  | false => simp [skip_cons_of_neg hb, valueRule_cons d r out b w s]

theorem digits_cons {t : UInt8} {push : Request → UInt8 → Request} {K : Rule Request UInt8}
    (s next : Stage) (ht : isDigit (toInt t) = false)
    (hs : residual d s = field (fun c => isDigit (toInt c)) t push K)
    (hnext : residual d next = K) :
    field (fun c => isDigit (toInt c)) t push K r (b :: w) out ↔ Leads d
      (if b = t then (.indeterminate, next, r)
        else if isDigit (toInt b) then (.indeterminate, s, push r b)
        else (.no, s, r)) w out := by
  rw [field_cons (p := fun c => isDigit (toInt c)) ht]
  by_cases hb : b = t
  · subst b
    simp [Leads, hnext, ht]
  · simp only [hb, false_and, false_or, if_false]
    split <;> simp [Leads, *]

theorem uriRule_cons :
    uriRule d r (b :: w) out ↔ Leads d (advance d (.uri, r) b) w out := by
  unfold uriRule advance
  rw [field_cons (by decide)]
  by_cases hb : b = chr ' '
  · subst b
    simp only [show isUriByte (chr ' ') = false by decide, true_and, Bool.false_eq_true,
      false_and, or_false, if_true, Grammar.guard]
    split
    · rename_i h
      have hg : d.emptyUri = false → r.uri ≠ [] := by
        intro he
        simpa [he] using h
      exact ⟨fun hK => hK.2, fun hK => ⟨hg, hK⟩⟩
    · rename_i h
      have hg : ¬ (d.emptyUri = false → r.uri ≠ []) := by simpa using h
      simp [Leads, hg]
  · simp only [hb, false_and, false_or, if_false]
    split <;> simp [Leads, residual, uriRule, *]

theorem linesRule_cons_leads :
    linesRule d r (b :: w) out ↔ Leads d (advance d (.lineStart, r) b) w out := by
  rw [linesRule_cons]
  unfold advance
  by_cases hcr : b = chr '\r'
  · subst b
    simp only [show isBlank (chr '\r') = false by decide,
      show isToken (chr '\r') = false by decide, Bool.false_eq_true, false_and, and_false,
      or_false, true_and, if_true]
    cases w with
    | nil => simp [Leads, residual]
    | cons a w => simp [Leads, residual, endRule, and_assoc]
  · have hdisj : isBlank b = true → isToken b = false := by
      intro h
      simp only [isBlank, Bool.or_eq_true, beq_iff_eq] at h
      rcases h with rfl | rfl <;> decide
    cases hb : isBlank b <;> cases ht : isToken b <;> by_cases hr : r.headers = [] <;>
      simp_all [Leads, residual]

/-- One byte of `advance` is one step of what is left to read. -/
theorem residual_cons (s : Stage) :
    residual d s r (b :: w) out ↔ Leads d (advance d (s, r) b) w out := by
  cases s with
  | methodStart =>
    simp only [residual, methodStartRule, one_cons, advance]
    split <;> simp [Leads, residual, *]
  | method =>
    simp only [residual, methodRule, advance]
    rw [field_cons (by decide)]
    by_cases hb : b = chr ' '
    · subst b
      simp [Leads, residual, show isToken (chr ' ') = false by decide]
    · simp only [hb, false_and, false_or, if_false]
      split <;> simp [Leads, residual, methodRule, *]
  | uri => exact uriRule_cons d r out b w
  | h => simp [residual, hRule, advance, leads_expect]
  | t1 => simp [residual, t1Rule, advance, leads_expect]
  | t2 => simp [residual, t2Rule, advance, leads_expect]
  | p => simp [residual, pRule, advance, leads_expect]
  | slash =>
    simp only [residual, slashRule, lit_cons, advance]
    split <;> simp [Leads, residual, *]
  | majorStart =>
    simp only [residual, majorStartRule, one_cons, advance]
    split <;> simp [Leads, residual, *]
  | major => exact digits_cons d r out b w .major .minorStart (by decide) rfl rfl
  | minorStart =>
    simp only [residual, minorStartRule, one_cons, advance]
    split <;> simp [Leads, residual, *]
  | minor => exact digits_cons d r out b w .minor .newline1 (by decide) rfl rfl
  | newline1 => simp [residual, newlineRule, advance, leads_expect]
  | lineStart => exact linesRule_cons_leads d r out b w
  | lws => exact lwsRule_cons d r out b w .lws
  | name =>
    simp only [residual, nameRule, advance]
    rw [field_cons (by decide)]
    by_cases hb : b = chr ':'
    · subst b
      simp [Leads, residual, show isToken (chr ':') = false by decide]
    · simp only [hb, false_and, false_or, if_false]
      split <;> simp [Leads, residual, nameRule, *]
  | space => simp [residual, spaceRule, advance, leads_expect]
  | value => exact valueRule_cons d r out b w .value
  | newline2 => simp [residual, newlineRule, advance, leads_expect]
  | newline3 =>
    simp only [residual, lit_cons, endRule, advance]
    split <;> simp [Leads, *]

theorem not_residual_nil (s : Stage) : ¬ residual d s r [] out := by
  cases s with
  | lineStart => exact not_linesRule_nil
  | lws =>
    intro h
    exact not_field_nil (skip_nil.mp h)
  | methodStart | majorStart | minorStart => exact not_one_nil
  | method | uri | major | minor | name | value => exact not_field_nil
  | h | t1 | t2 | p | slash | newline1 | space | newline2 | newline3 => exact not_lit_nil

end Reader

section Live
variable (d : Dialect)

theorem live_linesRule : Live (linesRule d) :=
  fun r => ⟨crlf, r, [], by simp, by simp, rfl, rfl⟩

theorem live_valueRule : Live (valueRule d) := ((live_linesRule d).lit _).field _

theorem live_minorStartRule : Live (minorStartRule d) :=
  (((live_linesRule d).lit _).field _).one (c := chr '0') (by decide)

theorem live_majorStartRule : Live (majorStartRule d) :=
  ((live_minorStartRule d).field _).one (c := chr '0') (by decide)

theorem live_slashRule : Live (slashRule d) :=
  Live.lit (K := fun r => majorStartRule d r.resetVersion)
    (fun r => live_majorStartRule d r.resetVersion) _

theorem live_hRule : Live (hRule d) := ((((live_slashRule d).lit _).lit _).lit _).lit _

theorem live_uriRule : Live (uriRule d) := by
  intro r
  obtain ⟨w, out, hw⟩ := live_hRule d (r.pushUri (chr '/'))
  have hbyte : ∀ b ∈ [chr '/'], isUriByte b = true := by
    intro b hb
    rw [List.mem_singleton.mp hb]
    decide
  refine ⟨chr '/' :: chr ' ' :: w, out, [chr '/'], w, rfl, hbyte, ?_, hw⟩
  simp [Request.pushUri]

theorem live_residual (s : Stage) : Live (residual d s) := by
  cases s with
  | methodStart => exact ((live_uriRule d).field _).one (c := chr 'G') (by decide)
  | method => exact (live_uriRule d).field _
  | uri => exact live_uriRule d
  | h => exact live_hRule d
  | t1 => exact (((live_slashRule d).lit _).lit _).lit _
  | t2 => exact ((live_slashRule d).lit _).lit _
  | p => exact (live_slashRule d).lit _
  | slash => exact live_slashRule d
  | majorStart => exact live_majorStartRule d
  | major => exact (live_minorStartRule d).field _
  | minorStart => exact live_minorStartRule d
  | minor => exact ((live_linesRule d).lit _).field _
  | newline1 | newline2 => exact (live_linesRule d).lit _
  | lineStart => exact live_linesRule d
  | lws =>
    intro r
    exact ⟨crlf ++ crlf, r, lwsRule_iff.mpr ⟨[], [], crlf, rfl, by simp, by simp, by simp,
      [], by simp, by simp, rfl, rfl⟩⟩
  | name => exact ((live_valueRule d).lit _).field _
  | space => exact (live_valueRule d).lit _
  | value => exact live_valueRule d
  | newline3 => exact fun r => ⟨[chr '\n'], r, [], rfl, rfl, rfl⟩

end Live

theorem describes (d : Dialect) :
    Describes (advance d) (fun _ => True) Prod.snd
      fun p w o => o.1 = .yes ∧ residual d p.1 p.2 w o.2 where
  nil := fun {p} _ o h => not_residual_nil d p.2 o.2 p.1 h.2
  inv := fun _ _ => trivial
  indeterminate := by
    intro p b q _ h w o
    rw [residual_cons d p.2 o.2 b w p.1, h]
    exact Iff.rfl
  decided := by
    intro p b q v _ h hv
    cases v with
    | indeterminate => exact absurd rfl hv
    | yes =>
      refine Or.inl fun w o => ?_
      rw [residual_cons d p.2 o.2 b w p.1, h]
      constructor
      · rintro ⟨hyes, hw, hout⟩
        exact ⟨hw, Prod.ext hyes hout⟩
      · rintro ⟨hw, rfl⟩
        exact ⟨rfl, hw, rfl⟩
    | no =>
      refine Or.inr ⟨rfl, fun w o hL => ?_⟩
      have := (residual_cons d p.2 o.2 b w p.1).mp hL.2
      rwa [h] at this
  live := by
    intro p _
    obtain ⟨w, out, h⟩ := live_residual d p.1 p.2
    exact ⟨w, (.yes, out), rfl, h⟩

theorem str_http : str "HTTP/" = [chr 'H', chr 'T', chr 'T', chr 'P', chr '/'] := rfl

/-- From the start a whole head is left to read, and its parts are added to the request. -/
theorem methodStartRule_iff (d : Dialect) {r out : Request} {w : Bytes} (hr : r.headers = [])
    (hu : d.emptyUri = false → r.uri = []) :
    methodStartRule d r w out ↔ ∃ m : RequestHead, m.WellFormed d ∧ w = m.bytes ∧
      out = { m.request with method := r.method ++ m.method, uri := r.uri ++ m.uri } := by
  constructor
  · rintro ⟨c, _, rfl, hc, v, _, rfl, hv, u, _, rfl, hub, hne, _, rfl, _, rfl, _, rfl, _, rfl,
      _, rfl, c₁, _, rfl, hc₁, v₁, _, rfl, hv₁, c₂, _, rfl, hc₂, v₂, _, rfl, hv₂, _, rfl,
      ls, hok, hfirst, rfl, rfl⟩
    simp only [foldl_pushMethod, foldl_pushUri, foldl_pushMajor, foldl_pushMinor,
      Request.pushMethod, Request.pushMajor, Request.pushMinor, Request.resetVersion, hr] at *
    refine ⟨⟨c :: v, u, c₁ :: v₁, c₂ :: v₂, ls⟩, ?_, ?_, ?_⟩
    · exact {
        method_ne := by simp
        method_token := by simpa using ⟨hc, hv⟩
        uri_ne := fun he => by simpa [hu he] using hne he
        uri_byte := hub
        major_ne := by simp
        major_digit := by simpa using ⟨hc₁, hv₁⟩
        minor_ne := by simp
        minor_digit := by simpa using ⟨hc₂, hv₂⟩
        lines_ok := hok
        first_line := hfirst trivial }
    · simp [RequestHead.bytes, str_http, crlf]
    · simp [RequestHead.request, RequestHead.version, RequestHead.headers]
  · rintro ⟨⟨method, u, major, minor, ls⟩, hwf, rfl, rfl⟩
    obtain ⟨c, v, rfl⟩ := List.exists_cons_of_ne_nil hwf.method_ne
    obtain ⟨c₁, v₁, rfl⟩ := List.exists_cons_of_ne_nil hwf.major_ne
    obtain ⟨c₂, v₂, rfl⟩ := List.exists_cons_of_ne_nil hwf.minor_ne
    have hm := List.forall_mem_cons.mp hwf.method_token
    have h₁ := List.forall_mem_cons.mp hwf.major_digit
    have h₂ := List.forall_mem_cons.mp hwf.minor_digit
    refine ⟨c, _, rfl, hm.1, v, _, rfl, hm.2, u, _, rfl, hwf.uri_byte, ?_, _, rfl, _, rfl, _, rfl,
      _, rfl, _, rfl, c₁, _, rfl, h₁.1, v₁, _, rfl, h₁.2, c₂, _, rfl, h₂.1, v₂, _,
      by simp [crlf], h₂.2, _, rfl, ls, hwf.lines_ok, fun _ => hwf.first_line, rfl, ?_⟩
    · intro he
      simpa [foldl_pushMethod, foldl_pushUri, Request.pushMethod, hu he] using hwf.uri_ne he
    · simp [foldl_pushMethod, foldl_pushUri, foldl_pushMajor, foldl_pushMinor,
        Request.pushMethod, Request.pushMajor, Request.pushMinor, Request.resetVersion, hr,
        RequestHead.request, RequestHead.version, RequestHead.headers]

section Decision
variable (d : Dialect) {r : Request} (hr : r.headers = []) (hu : d.emptyUri = false → r.uri = [])
include hr hu

theorem reader_language_iff (w : Bytes) :
    (∃ o : Tribool × Request, o.1 = .yes ∧ residual d .methodStart r w o.2) ↔
      RequestHead.Language d w := by
  constructor
  · rintro ⟨o, -, h⟩
    obtain ⟨m, hm, rfl, -⟩ := (methodStartRule_iff d hr hu).mp h
    exact ⟨m, hm, rfl⟩
  · rintro ⟨m, hm, rfl⟩
    exact ⟨(.yes, _), rfl, (methodStartRule_iff d hr hu).mpr ⟨m, hm, rfl, rfl⟩⟩

theorem reader_language :
    (fun x => ∃ o : Tribool × Request, o.1 = .yes ∧ residual d .methodStart r x o.2) =
      RequestHead.Language d :=
  funext fun x => propext (reader_language_iff d hr hu x)

theorem reader_accepts_iff (w : Bytes) (k : Nat) :
    ((run (advance d) (.methodStart, r) w).verdict = .yes ∧
      (run (advance d) (.methodStart, r) w).consumed = k) ↔
      k ≤ w.length ∧ RequestHead.Language d (w.take k) := by
  rw [(describes d).accepted_iff trivial, ← reader_language_iff d hr hu]
  simp

theorem reader_indeterminate_iff (w : Bytes) :
    (run (advance d) (.methodStart, r) w).verdict = .indeterminate ↔
      ProperPrefix (RequestHead.Language d) w := by
  rw [← reader_language d hr hu]
  exact (describes d).indeterminate_iff trivial w

theorem reader_rejects_iff (w : Bytes) (k : Nat) :
    ((run (advance d) (.methodStart, r) w).verdict = .no ∧
      (run (advance d) (.methodStart, r) w).consumed = k) ↔
      0 < k ∧ k ≤ w.length ∧ ProperPrefix (RequestHead.Language d) (w.take (k - 1)) ∧
        Dead (RequestHead.Language d) (w.take k) := by
  rw [← reader_language d hr hu, (describes d).rejected_iff trivial]
  simp

theorem reader_request {w : Bytes} {m : RequestHead} (hm : m.WellFormed d)
    (hw : w.take (run (advance d) (.methodStart, r) w).consumed = m.bytes) :
    (run (advance d) (.methodStart, r) w).state.2 =
      { m.request with method := r.method ++ m.method, uri := r.uri ++ m.uri } := by
  have hout := (methodStartRule_iff d hr hu).mpr ⟨m, hm, rfl, rfl⟩
  rw [← hw] at hout
  exact ((describes d).run_of_lang (s := (.methodStart, r)) (o := (.yes, _)) trivial
    (consumed_le _ _ w) ⟨rfl, hout⟩).2.2.1

/-- A head that the input starts with is taken, and its parts are added to the request. -/
theorem reader_of_head {m : RequestHead} {w : Bytes} {k : Nat} (hm : m.WellFormed d)
    (hk : k ≤ w.length) (hw : w.take k = m.bytes) :
    (run (advance d) (.methodStart, r) w).verdict = .yes ∧
      (run (advance d) (.methodStart, r) w).consumed = k ∧
      (run (advance d) (.methodStart, r) w).state.2 =
        { m.request with method := r.method ++ m.method, uri := r.uri ++ m.uri } := by
  obtain ⟨hyes, hcons⟩ := (reader_accepts_iff d hr hu w k).mpr ⟨hk, m, hm, hw.symm⟩
  refine ⟨hyes, hcons, ?_⟩
  apply reader_request d hr hu hm
  rw [hcons, hw]

end Decision

/-- No word starts with two heads of different requests. -/
theorem request_unique {d : Dialect} {m m' : RequestHead} {w : Bytes} (hm : m.WellFormed d)
    (hm' : m'.WellFormed d) (hw : m.bytes <+: w) (hw' : m'.bytes <+: w) :
    m.request = m'.request := by
  have hr : Request.fresh.headers = [] := rfl
  have hu : d.emptyUri = false → Request.fresh.uri = [] := fun _ => rfl
  have htaken : ∀ {n : RequestHead}, n.WellFormed d → n.bytes <+: w →
      (run (advance d) (.methodStart, Request.fresh) w).state.2 = n.request := by
    intro n hn hstart
    have htake : w.take n.bytes.length = n.bytes := (List.prefix_iff_eq_take.mp hstart).symm
    exact (reader_of_head d hr hu hn hstart.length_le htake).2.2
  exact (htaken hm hw).symm.trans (htaken hm' hw')

end AsioExamples.Http
