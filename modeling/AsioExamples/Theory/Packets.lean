import Mathlib.Data.List.Infix

/-!
# Streams of packets

A packet is a header of a fixed length and a body of the length that the header says. Where the
packets of a stream end is in the stream itself, so all who read it agree on its packets.
-/

namespace AsioExamples

set_option autoImplicit false

universe u

structure Packet (β : Type u) where
  header : List β
  body : List β

namespace Packet
variable {β : Type u} {k : Nat} {len : List β → Nat} {f f' : Packet β} {fs fs' : List (Packet β)}
  {stream rest rest' : List β}

def bytes (f : Packet β) : List β := f.header ++ f.body

structure Fits (k : Nat) (len : List β → Nat) (f : Packet β) : Prop where
  header : f.header.length = k
  body : f.body.length = len f.header

/-- The first packet of a stream is known by the stream. -/
theorem eq_of_append (hf : f.Fits k len) (hf' : f'.Fits k len)
    (h : f.bytes ++ rest = f'.bytes ++ rest') : f = f' ∧ rest = rest' := by
  obtain ⟨header, body⟩ := f
  obtain ⟨header', body'⟩ := f'
  unfold bytes at h
  rw [List.append_assoc, List.append_assoc] at h
  obtain ⟨rfl, hrest⟩ := List.append_inj h (hf.header.trans hf'.header.symm)
  obtain ⟨rfl, htail⟩ := List.append_inj hrest (hf.body.trans hf'.body.symm)
  exact ⟨rfl, htail⟩

/-- Who has taken fewer packets of a stream has taken the first of those of the other. -/
theorem comparable (hfs : ∀ f ∈ fs, f.Fits k len) (hfs' : ∀ f ∈ fs', f.Fits k len)
    (h : fs.flatMap bytes <+: stream) (h' : fs'.flatMap bytes <+: stream) :
    fs <+: fs' ∨ fs' <+: fs := by
  induction fs generalizing fs' stream with
  | nil => exact .inl List.nil_prefix
  | cons f fs ih =>
    cases fs' with
    | nil => exact .inr List.nil_prefix
    | cons f' fs' =>
      obtain ⟨hf, htail⟩ := List.forall_mem_cons.mp hfs
      obtain ⟨hf', htail'⟩ := List.forall_mem_cons.mp hfs'
      obtain ⟨rest, rfl⟩ := h
      obtain ⟨rest', h'⟩ := h'
      rw [List.flatMap_cons, List.flatMap_cons, List.append_assoc, List.append_assoc] at h'
      obtain ⟨rfl, hrest⟩ := eq_of_append hf' hf h'
      rcases ih htail htail' (List.prefix_append _ rest) ⟨rest', hrest⟩ with hle | hle
      · exact .inl ((List.prefix_cons_inj f').mpr hle)
      · exact .inr ((List.prefix_cons_inj f').mpr hle)

/-- A stream is made of packets in one way. -/
theorem eq_of_flatMap (hk : 0 < k) (hfs : ∀ f ∈ fs, f.Fits k len)
    (hfs' : ∀ f ∈ fs', f.Fits k len) (h : fs.flatMap bytes = fs'.flatMap bytes) : fs = fs' := by
  have hnil : ∀ l : List (Packet β), (∀ f ∈ l, f.Fits k len) → l.flatMap bytes = [] → l = [] := by
    intro l hl hempty
    apply List.eq_nil_iff_forall_not_mem.mpr
    intro f hf
    have hbytes := List.flatMap_eq_nil_iff.mp hempty f hf
    have hheader := (hl f hf).header
    rw [(List.append_eq_nil_iff.mp hbytes).1] at hheader
    exact absurd hheader (Nat.ne_of_lt hk)
  rcases comparable hfs hfs' (h ▸ List.prefix_rfl) List.prefix_rfl with ⟨l, rfl⟩ | ⟨l, rfl⟩
  · rw [List.flatMap_append, List.self_eq_append_right] at h
    rw [hnil l (fun f hf => hfs' f (List.mem_append_right _ hf)) h, List.append_nil]
  · rw [List.flatMap_append, List.append_right_eq_self] at h
    rw [hnil l (fun f hf => hfs f (List.mem_append_right _ hf)) h, List.append_nil]

end Packet

end AsioExamples
