import AsioExamples.Chat.ClientClose
import AsioExamples.Theory.Lines

/-!
# What is typed and what is sent

`getline` takes a line that fits, with its newline. A line that does not fit ends the loop of
`main`, and neither that line nor any after it is sent.
-/

namespace AsioExamples.Chat

set_option autoImplicit false

open Lines

section Getline
variable {line stored rest : Bytes} {room : Nat}

theorem getline_fits (hline : chr '\n' ∉ line) (h : line.length ≤ room) :
    getline stored room (line ++ chr '\n' :: rest) = (stored ++ line, rest, true) := by
  induction line generalizing stored room with
  | nil => cases room <;> simp [getline]
  | cons c line ih =>
    obtain ⟨hc, hline⟩ := not_or.mp (fun hm => hline (List.mem_cons.mpr hm))
    cases room with
    | zero => exact absurd h (Nat.not_succ_le_zero _)
    | succ room =>
      have hrest : getline (stored ++ [c]) room (line ++ chr '\n' :: rest) = _ :=
        ih hline (Nat.le_of_succ_le_succ h)
      rw [List.cons_append, getline, if_neg (Ne.symm hc), hrest, List.append_assoc]
      rfl

theorem getline_fails (hline : chr '\n' ∉ line) (h : room < line.length) :
    (getline stored room (line ++ rest)).2.2 = false := by
  induction line generalizing stored room with
  | nil => exact absurd h (Nat.not_lt_zero _)
  | cons c line ih =>
    obtain ⟨hc, hline⟩ := not_or.mp (fun hm => hline (List.mem_cons.mpr hm))
    cases room with
    | zero => rw [List.cons_append, getline, if_neg (Ne.symm hc)]
    | succ room =>
      rw [List.cons_append, getline, if_neg (Ne.symm hc)]
      exact ih hline (Nat.lt_of_succ_lt_succ h)

/-- The lines up to the first that does not fit. -/
theorem typedLines_terminated {ls : List Bytes} (hls : ∀ l ∈ ls, chr '\n' ∉ l) {fuel : Nat}
    (hfuel : (terminated (chr '\n') ls).length < fuel) :
    typedLines fuel (terminated (chr '\n') ls) =
      ls.takeWhile fun l => decide (l.length ≤ maxBodyLength) := by
  induction ls generalizing fuel with
  | nil =>
    cases fuel with
    | zero => rfl
    | succ fuel => rfl
  | cons l ls ih =>
    obtain ⟨hl, hls⟩ := List.forall_mem_cons.mp hls
    cases fuel with
    | zero => exact absurd hfuel (Nat.not_lt_zero _)
    | succ fuel =>
      rw [terminated_cons] at hfuel ⊢
      by_cases hfits : l.length ≤ maxBodyLength
      · have hget : getline [] maxBodyLength (l ++ chr '\n' :: terminated (chr '\n') ls) = _ :=
          getline_fits hl hfits
        have hrest : (terminated (chr '\n') ls).length < fuel := by
          simp only [List.length_append, List.length_cons] at hfuel
          omega
        rw [typedLines, hget, List.takeWhile_cons_of_pos (by simpa using hfits)]
        simp only [List.nil_append, ih hls hrest]
      · have hget : (getline [] maxBodyLength (l ++ chr '\n' :: terminated (chr '\n') ls)).2.2 =
            false := getline_fails hl (Nat.lt_of_not_le hfits)
        rw [typedLines, List.takeWhile_cons_of_neg (by simpa using hfits)]
        rcases hg : getline [] maxBodyLength (l ++ chr '\n' :: terminated (chr '\n') ls) with
          ⟨line, rest, ok⟩
        rw [hg] at hget
        obtain rfl : ok = false := hget
        rfl

end Getline

theorem makeMessage_body (fill : Fill) (line : Bytes) :
    (makeMessage fill line).body = line.take maxBodyLength := by
  have hbytes := (makeMessage_bytes fill line).symm
  have hle : (line.take maxBodyLength).length ≤ maxBodyLength := List.length_take_le _ _
  have hdata : (makeMessage fill line).data.length = headerLength + maxBodyLength :=
    (makeMessage fill line).data_length
  rw [ChatMessage.bytes_eq] at hbytes
  refine (List.append_inj_right hbytes ?_).symm
  rw [length_padded hle, List.length_take, hdata]
  decide

/-- The bodies of the messages for lines that fit are the lines. -/
theorem bodies_mapIdx (fills : Nat → Fill) {lines : List Bytes}
    (hlines : ∀ l ∈ lines, 0 ∉ l ∧ l.length ≤ maxBodyLength) :
    ((lines.mapIdx fun i line => Posted.doWrite (makeMessage (fills i) (cStr line))).filterMap
      Posted.message).flatMap ChatMessage.body = lines.flatten := by
  induction lines generalizing fills with
  | nil => rfl
  | cons l lines ih =>
    obtain ⟨⟨hnul, hle⟩, hlines⟩ := List.forall_mem_cons.mp hlines
    have hbody : (makeMessage (fills 0) (cStr l)).body = l := by
      rw [makeMessage_body, cStr_eq_self hnul, List.take_of_length_le hle]
    rw [List.mapIdx_cons, List.filterMap_cons_some (f := Posted.message) rfl,
      List.flatMap_cons, hbody,
      List.flatten_cons]
    congr 1
    exact ih (fun i => fills (i + 1)) hlines

theorem takeWhile_flatten_eq_iff {ls : List Bytes} {n : Nat} :
    (ls.takeWhile fun l => decide (l.length ≤ n)).flatten = ls.flatten ↔
      ∀ l ∈ ls, l.length ≤ n := by
  induction ls with
  | nil => simp
  | cons m ls ih =>
    rw [List.forall_mem_cons]
    by_cases hm : m.length ≤ n
    · rw [List.takeWhile_cons_of_pos (by simpa using hm), List.flatten_cons, List.flatten_cons,
        List.append_cancel_left_eq, ih]
      exact (and_iff_right hm).symm
    · rw [List.takeWhile_cons_of_neg (by simpa using hm), List.flatten_cons]
      constructor
      · intro h
        have hnil : m = [] := (List.append_eq_nil_iff.mp h.symm).1
        rw [hnil] at hm
        exact absurd (Nat.zero_le n) hm
      · exact fun h => absurd h.1 hm

/-- The lines of a text fit exactly if every stretch without a newline does. -/
theorem lines_fit_iff {ls : List Bytes} (hls : ∀ l ∈ ls, chr '\n' ∉ l) :
    (∀ l ∈ ls, l.length ≤ maxBodyLength) ↔
      ∀ l, l <:+: terminated (chr '\n') ls → chr '\n' ∉ l → l.length ≤ maxBodyLength := by
  constructor
  · intro h l hin hl
    by_cases hnil : l = []
    · rw [hnil]
      exact Nat.zero_le _
    · obtain ⟨m, hm, hlm⟩ := infix_line hl hnil hin
      exact hlm.length_le.trans (h m hm)
  · exact fun h l hl => h l (infix_terminated hl) (hls l hl)

/-- All that is typed is sent exactly if no line is too long for a message. -/
theorem everything_typed_is_sent_iff (fills : Nat → Fill) {text : Bytes} (hnul : 0 ∉ text)
    (hend : text.getLast? = some (chr '\n')) :
    ((mainCalls fills text).filterMap Posted.message).flatMap ChatMessage.body =
        text.filter (fun c => c != chr '\n') ↔
      ∀ l, l <:+: text → chr '\n' ∉ l → l.length ≤ maxBodyLength := by
  obtain ⟨ls, rfl, hls⟩ := exists_terminated hend
  have htyped := typedLines_terminated hls (Nat.lt_succ_self _)
  have hlines : ∀ l ∈ ls.takeWhile fun l => decide (l.length ≤ maxBodyLength),
      0 ∉ l ∧ l.length ≤ maxBodyLength := by
    intro l hl
    refine ⟨fun hmem => hnul ?_, by simpa using List.mem_takeWhile_imp hl⟩
    exact (infix_terminated ((List.takeWhile_prefix _).subset hl)).subset hmem
  have hsent : ((mainCalls fills (terminated (chr '\n') ls)).filterMap
      Posted.message).flatMap ChatMessage.body =
        (ls.takeWhile fun l => decide (l.length ≤ maxBodyLength)).flatten := by
    unfold mainCalls
    rw [htyped, List.filterMap_append, List.flatMap_append, bodies_mapIdx fills hlines]
    exact List.append_nil _
  rw [hsent, filter_terminated hls, takeWhile_flatten_eq_iff, lines_fit_iff hls]

/-- Two short lines, the second of them empty. -/
theorem everything_typed_is_sent_iff_short :
    ((mainCalls (fun _ => Fill.zero) (str "hi\n\n")).filterMap Posted.message).flatMap
        ChatMessage.body = (str "hi\n\n").filter (fun c => c != chr '\n') ↔
      ∀ l, l <:+: str "hi\n\n" → chr '\n' ∉ l → l.length ≤ maxBodyLength :=
  everything_typed_is_sent_iff (fun _ => Fill.zero) (by decide) (by decide)

/-- A line of 513 characters is lost. -/
theorem long_line_is_lost :
    let text := List.replicate 513 (chr 'a') ++ [chr '\n']
    0 ∉ text ∧ text.getLast? = some (chr '\n') ∧
      ((mainCalls (fun _ => Fill.zero) text).filterMap Posted.message).flatMap ChatMessage.body ≠
        text.filter (fun c => c != chr '\n') := by
  intro text
  have hsent : ((mainCalls (fun _ => Fill.zero) text).filterMap Posted.message).flatMap
      ChatMessage.body = [] := by decide +kernel
  refine ⟨by decide +kernel, by decide +kernel, ?_⟩
  rw [hsent]
  decide +kernel

end AsioExamples.Chat
