import AsioExamples.Http.RequestHandler
import AsioExamples.Theory.Lines

/-!
# Replies on the wire

A reply is a status line, the two content headers, a blank line and the content. Nothing the
client sends gets into the first three but the choice among fixed texts, so the first blank
line is the one before the content.
-/

namespace AsioExamples.Http

set_option autoImplicit false

open Decimal Lines

def OneLine (w : Bytes) : Prop := w ≠ [] ∧ chr '\r' ∉ w ∧ chr '\n' ∉ w

instance (w : Bytes) : Decidable (OneLine w) := inferInstanceAs (Decidable (_ ∧ _ ∧ _))

/-- The bytes of a reply are one status line, Content-Length and Content-Type in that order, a
blank line and the content, the number of whose bytes is in Content-Length; and after the end
of any line that a blank one follows there is no more than the content. -/
def Reply.Framed (rep : Reply) : Prop :=
  ∃ status size contentType : Bytes,
    rep.toBuffers.flatten =
      (status ++ crlf) ++ (str "Content-Length: " ++ size ++ crlf) ++
        (str "Content-Type: " ++ contentType ++ crlf) ++ crlf ++ rep.content ∧
    OneLine status ∧ OneLine size ∧ OneLine contentType ∧
    StatusStrings.toBuffer rep.status = status ++ crlf ∧
    str "HTTP/1.0 " ++ decimal rep.status.code <+: status ∧
    (∀ c ∈ size, isDecimalDigit c = true) ∧ valueOf size = rep.content.length ∧
    ∀ u v, rep.toBuffers.flatten = u ++ crlf ++ crlf ++ v → v.length ≤ rep.content.length

theorem oneLine_decimal (n : Nat) : OneLine (decimal n) := by
  have hdigit : ∀ c ∈ decimal n, isDecimalDigit c = true := fun c hc => isDecimalDigit_of_mem hc
  refine ⟨decimal_ne_nil n, fun h => ?_, fun h => ?_⟩
  · exact absurd (hdigit _ h) (by decide)
  · exact absurd (hdigit _ h) (by decide)

theorem oneLine_html : OneLine (str "text/html") := by decide +kernel

theorem oneLine_extensionToType (extension : Bytes) :
    OneLine (MimeTypes.extensionToType extension) := by
  have htable : ∀ m ∈ MimeTypes.mappings, OneLine m.mimeType := by decide +kernel
  unfold MimeTypes.extensionToType
  split
  · rename_i m hm
    exact htable m (List.mem_of_find?_eq_some hm)
  · decide +kernel

theorem oneLine_append {u v : Bytes} (hu : OneLine u) (hv : OneLine v) : OneLine (u ++ v) := by
  obtain ⟨hne, hcr, hlf⟩ := hu
  obtain ⟨-, hcr', hlf'⟩ := hv
  refine ⟨by simp [hne], ?_, ?_⟩
  · simp [hcr, hcr']
  · simp [hlf, hlf']

theorem toBuffers_of_contentHeaders {rep : Reply} {contentType : Bytes}
    (hh : rep.headers = contentHeaders rep.content contentType) :
    rep.toBuffers.flatten = StatusStrings.toBuffer rep.status ++
      (block (chr '\r') (chr '\n') [str "Content-Length: " ++ decimal rep.content.length,
        str "Content-Type: " ++ contentType] ++ rep.content) := by
  simp [Reply.toBuffers, hh, contentHeaders, MiscStrings.nameValueSeparator, block, crlf, str, chr]

theorem oneLine_contentHeaders (content : Bytes) {contentType : Bytes} (ht : OneLine contentType) :
    OneLine (str "Content-Length: " ++ decimal content.length) ∧
      OneLine (str "Content-Type: " ++ contentType) := by
  refine ⟨oneLine_append ?_ (oneLine_decimal _), oneLine_append ?_ ht⟩
  · decide +kernel
  · decide +kernel

def StatusType.Named (s : StatusType) : Prop := ∀ value, s ≠ .other value

theorem toBuffer_eq {s : StatusType} (hs : s.Named) :
    s.code ≤ 4294967295 ∧ ∃ phrase, chr '\r' ∉ phrase ∧ chr '\n' ∉ phrase ∧
      StatusStrings.toBuffer s =
        (str "HTTP/1.0" ++ chr ' ' :: (decimal s.code ++ chr ' ' :: phrase)) ++ crlf := by
  refine ⟨?_, ((StatusStrings.toBuffer s).drop 13).dropLast.dropLast, ?_⟩
  · cases s with
    | other value => exact absurd rfl (hs value)
    | _ => decide
  · cases s with
    | other value => exact absurd rfl (hs value)
    | _ => decide +kernel

/-- Every status line is one line, and a named status has its own code in it. -/
theorem statusLine (s : StatusType) (hs : s.Named) :
    ∃ status, StatusStrings.toBuffer s = status ++ crlf ∧ OneLine status ∧
      str "HTTP/1.0 " ++ decimal s.code <+: status := by
  obtain ⟨-, phrase, hcr, hlf, heq⟩ := toBuffer_eq hs
  have hhttp : str "HTTP/1.0 " = str "HTTP/1.0" ++ [chr ' '] := by decide
  have hphrase : OneLine (chr ' ' :: phrase) := by
    refine ⟨List.cons_ne_nil _ _, ?_, ?_⟩
    · simp [hcr, show chr '\r' ≠ chr ' ' by decide]
    · simp [hlf, show chr '\n' ≠ chr ' ' by decide]
  have hcode := oneLine_append (oneLine_decimal s.code) hphrase
  have hstatus : StatusStrings.toBuffer s =
      (str "HTTP/1.0 " ++ (decimal s.code ++ chr ' ' :: phrase)) ++ crlf := by
    rw [heq, hhttp]
    simp
  refine ⟨_, hstatus, oneLine_append (by decide) hcode, ?_⟩
  exact List.prefix_append_right_inj _ |>.mpr (List.prefix_append _ _)

theorem framed_of_contentHeaders (rep : Reply) {contentType : Bytes} (hs : rep.status.Named)
    (hh : rep.headers = contentHeaders rep.content contentType) (ht : OneLine contentType) :
    rep.Framed := by
  obtain ⟨status, hline, hstatus, hcode⟩ := statusLine rep.status hs
  have hsize := oneLine_decimal rep.content.length
  have hbytes : rep.toBuffers.flatten =
      block (chr '\r') (chr '\n') [status, str "Content-Length: " ++ decimal rep.content.length,
        str "Content-Type: " ++ contentType] ++ rep.content := by
    rw [toBuffers_of_contentHeaders hh, hline]
    simp [block, crlf]
  refine ⟨status, decimal rep.content.length, contentType, ?_, hstatus, hsize, ht, hline, hcode,
    fun c hc => isDecimalDigit_of_mem hc, valueOf_decimal _, fun u v he => ?_⟩
  · rw [hbytes]
    simp [block, crlf]
  · have hne : chr '\r' ≠ chr '\n' := by decide
    have hcut : rep.toBuffers.flatten =
        u ++ chr '\r' :: chr '\n' :: chr '\r' :: chr '\n' :: v := by
      rw [he]
      simp [crlf]
    have hclosed := block_closed_first hne ?_ (hbytes.symm.trans hcut)
    · have hlength := congrArg List.length (hbytes.symm.trans he)
      simp only [List.length_append, crlf, List.length_cons, List.length_nil] at hlength
      omega
    · obtain ⟨hl, hr⟩ := oneLine_contentHeaders rep.content ht
      intro l hmem
      simp only [List.mem_cons, List.not_mem_nil, or_false] at hmem
      rcases hmem with rfl | rfl | rfl
      · exact ⟨hstatus.1, hstatus.2.1⟩
      · exact ⟨hl.1, hl.2.1⟩
      · exact ⟨hr.1, hr.2.1⟩

theorem stockReply_framed (s : StatusType) (hs : s.Named) : (Reply.stockReply s).Framed :=
  framed_of_contentHeaders (Reply.stockReply s) hs rfl oneLine_html

/-- Whatever comes in, a reply with a named status and the two content headers comes out. -/
theorem handle_contentHeaders (docRoot : Bytes) (files : Bytes → Option Bytes) (uri : Bytes)
    (rep : Reply) :
    ∃ contentType, (RequestHandler.handle docRoot files uri rep).rep.status.Named ∧
      (RequestHandler.handle docRoot files uri rep).rep.headers =
        contentHeaders (RequestHandler.handle docRoot files uri rep).rep.content contentType ∧
      OneLine contentType := by
  by_cases h : ∃ requestPath, RequestHandler.Accepts uri requestPath
  · obtain ⟨requestPath, hp⟩ := h
    rw [RequestHandler.handle_of_accepts docRoot files hp]
    cases files (RequestHandler.fullPath docRoot requestPath) with
    | none => exact ⟨_, nofun, rfl, oneLine_html⟩
    | some file => exact ⟨_, nofun, rfl, oneLine_extensionToType _⟩
  · rw [RequestHandler.handle_of_not_accepts docRoot files h]
    exact ⟨_, nofun, rfl, oneLine_html⟩

theorem handle_framed (docRoot : Bytes) (files : Bytes → Option Bytes) (uri : Bytes) (rep : Reply) :
    (RequestHandler.handle docRoot files uri rep).rep.Framed := by
  obtain ⟨contentType, hs, hh, ht⟩ := handle_contentHeaders docRoot files uri rep
  exact framed_of_contentHeaders _ hs hh ht

/-- Whatever is asked of a server, the reply it sends is framed. -/
theorem replies_framed (docRoot : Bytes) (files : Bytes → Option Bytes) (req : Server4.Request)
    (value : Nat) :
    (Server.RequestHandler.handleRequest docRoot files req.toRequest
        (Reply.fresh value)).rep.Framed ∧
      (Server2.RequestHandler.handleRequest docRoot files req.toRequest
        (Reply.fresh value)).rep.Framed ∧
      (Server4.FileHandler.call docRoot files req (Reply.fresh value)).rep.Framed ∧
      (Reply.stockReply .badRequest).Framed :=
  ⟨handle_framed docRoot files req.uri _, handle_framed docRoot files req.uri _,
    handle_framed docRoot files req.uri _, stockReply_framed .badRequest nofun⟩

end AsioExamples.Http
