import PromptCode.Py.Str

/-!
# `str.splitlines`

A text is split at every line boundary, and a boundary at its end starts no line.  Two
texts have the same lines exactly when they agree once each boundary is written as a
line feed and an unfinished last line gets one.
-/

namespace PromptCode.Py

/-- The line boundaries of `str.splitlines`. -/
def isLineBreak (c : CodePoint) : Bool :=
  decide (c.val ∈ [10, 11, 12, 13, 28, 29, 30, 0x85, 0x2028, 0x2029])

/-- `s.splitlines()`. -/
def splitLines : Str → List Str
  | [] => []
  | 13 :: 10 :: s => [] :: splitLines s
  | c :: s =>
      if isLineBreak c then [] :: splitLines s
      else
        match splitLines s with
        | [] => [[c]]
        | line :: lines => (c :: line) :: lines

/-- Every line of the text ended by a line feed. -/
def endLines : Str → Str
  | [] => []
  | 13 :: 10 :: s => 10 :: endLines s
  | c :: s =>
      if isLineBreak c then 10 :: endLines s
      else c :: if s = [] then [10] else endLines s

theorem isLineBreak_lineFeed : isLineBreak 10 = true := rfl

theorem splitLines_eq_nil_iff {s : Str} : splitLines s = [] ↔ s = [] := by
  constructor
  · intro h
    induction s using splitLines.induct with
    | case1 => rfl
    | case2 s ih => simp [splitLines] at h
    | case3 c s hcrlf hbreak ih =>
        rw [splitLines.eq_3 c s hcrlf, if_pos hbreak] at h
        simp at h
    | case4 c s hcrlf hbreak hrest ih =>
        rw [splitLines.eq_3 c s hcrlf, if_neg hbreak, hrest] at h
        simp at h
    | case5 c s hcrlf hbreak line lines hrest ih =>
        rw [splitLines.eq_3 c s hcrlf, if_neg hbreak, hrest] at h
        simp at h
  · rintro rfl
    rfl

theorem lineFeed_notMem_of_mem_splitLines {s line : Str} (h : line ∈ splitLines s) :
    (10 : CodePoint) ∉ line := by
  induction s using splitLines.induct generalizing line with
  | case1 => simp [splitLines] at h
  | case2 s ih =>
      rw [splitLines, List.mem_cons] at h
      rcases h with rfl | h
      · simp
      · exact ih h
  | case3 c s hcrlf hbreak ih =>
      rw [splitLines.eq_3 c s hcrlf, if_pos hbreak, List.mem_cons] at h
      rcases h with rfl | h
      · simp
      · exact ih h
  | case4 c s hcrlf hbreak hrest ih =>
      rw [splitLines.eq_3 c s hcrlf, if_neg hbreak, hrest] at h
      obtain rfl := List.mem_singleton.mp h
      rw [List.mem_singleton]
      rintro rfl
      exact hbreak isLineBreak_lineFeed
  | case5 c s hcrlf hbreak first lines hrest ih =>
      rw [splitLines.eq_3 c s hcrlf, if_neg hbreak, hrest, List.mem_cons] at h
      rcases h with rfl | h
      · have hfirst : (10 : CodePoint) ∉ first := ih (by rw [hrest]; simp)
        rw [List.mem_cons, not_or]
        refine ⟨?_, hfirst⟩
        rintro rfl
        exact hbreak isLineBreak_lineFeed
      · exact ih (by rw [hrest]; exact List.mem_cons_of_mem _ h)

theorem endLines_eq_flatMap (s : Str) :
    endLines s = (splitLines s).flatMap (fun line => line ++ [10]) := by
  induction s using splitLines.induct with
  | case1 => rfl
  | case2 s ih =>
      rw [endLines, splitLines, ih]
      rfl
  | case3 c s hcrlf hbreak ih =>
      rw [endLines.eq_3 c s hcrlf, splitLines.eq_3 c s hcrlf, if_pos hbreak, if_pos hbreak, ih]
      rfl
  | case4 c s hcrlf hbreak hrest ih =>
      have hs : s = [] := splitLines_eq_nil_iff.mp hrest
      rw [endLines.eq_3 c s hcrlf, splitLines.eq_3 c s hcrlf, if_neg hbreak, if_neg hbreak,
        hrest, if_pos hs]
      rfl
  | case5 c s hcrlf hbreak line lines hrest ih =>
      have hs : s ≠ [] := by
        rintro rfl
        simp [splitLines] at hrest
      rw [endLines.eq_3 c s hcrlf, splitLines.eq_3 c s hcrlf, if_neg hbreak, if_neg hbreak,
        if_neg hs, ih, hrest]
      rfl

/-- Ended lines can be told apart. -/
theorem endedLines_injective {lines lines' : List Str}
    (h : ∀ line ∈ lines, (10 : CodePoint) ∉ line)
    (h' : ∀ line ∈ lines', (10 : CodePoint) ∉ line)
    (heq : lines.flatMap (fun line => line ++ [10]) =
      lines'.flatMap (fun line => line ++ [10])) :
    lines = lines' := by
  have hsplit : ∀ ls : List Str, (∀ line ∈ ls, (10 : CodePoint) ∉ line) →
      split 10 (ls.flatMap fun line => line ++ [10]) = ls ++ [[]] := by
    intro ls hls
    induction ls with
    | nil => rfl
    | cons line ls ih =>
        rw [List.forall_mem_cons] at hls
        rw [List.flatMap_cons, List.append_assoc, List.singleton_append,
          split_append_cons hls.1, ih hls.2, List.cons_append]
  have happend : lines ++ [[]] = lines' ++ [([] : Str)] := by
    rw [← hsplit lines h, heq, hsplit lines' h']
  exact List.append_cancel_right happend

/-- Two texts have the same lines exactly when they differ in their line ends only. -/
theorem splitLines_eq_iff {s t : Str} :
    splitLines s = splitLines t ↔ endLines s = endLines t := by
  rw [endLines_eq_flatMap, endLines_eq_flatMap]
  constructor
  · intro h
    rw [h]
  · exact endedLines_injective (fun _ => lineFeed_notMem_of_mem_splitLines)
      (fun _ => lineFeed_notMem_of_mem_splitLines)

end PromptCode.Py
