import Mathlib.Data.List.Basic
import OpcodeForge.Text.Newline

/-!
# Lines of texts

A text is split into lines at each of its line endings, from the left. Two texts have the same lines
exactly where they are equal once every ending is written as one line feed, and to write them so it
is enough to replace the pairs first and then the lone carriage returns.
-/

namespace OpcodeForge.Text

/-- The lines of a text, which end at each `\r\n`, `\n` or `\r`. -/
def splitLines : List Char → List (List Char)
  | [] => [[]]
  | '\r' :: '\n' :: rest => [] :: splitLines rest
  | '\n' :: rest => [] :: splitLines rest
  | '\r' :: rest => [] :: splitLines rest
  | c :: rest => (splitLines rest).modifyHead (List.cons c)

/-- Lines with one line feed between them. -/
def joinLines (lines : List (List Char)) : List Char := ['\n'].intercalate lines

theorem splitLines_cons {c : Char} (hfeed : c ≠ '\n') (hreturn : c ≠ '\r') (cs : List Char) :
    splitLines (c :: cs) = (splitLines cs).modifyHead (List.cons c) := by
  rw [splitLines]
  · exact fun rest hc _ => hreturn hc
  · exact hfeed
  · exact hreturn

theorem exists_splitLines (cs : List Char) : ∃ line lines, splitLines cs = line :: lines := by
  fun_induction splitLines cs with
  | case1 => exact ⟨_, _, rfl⟩
  | case2 rest ih => exact ⟨_, _, rfl⟩
  | case3 rest ih => exact ⟨_, _, rfl⟩
  | case4 rest hpair ih => exact ⟨_, _, rfl⟩
  | case5 c rest hpair hfeed hreturn ih =>
      obtain ⟨line, lines, hlines⟩ := ih
      exact ⟨c :: line, lines, by rw [hlines, List.modifyHead_cons]⟩

/-- Unifying the endings of a text keeps its lines. -/
theorem splitLines_unifyNewlineChars (cs : List Char) :
    splitLines (unifyNewlineChars cs) = splitLines cs := by
  fun_induction unifyNewlineChars cs with
  | case1 => rfl
  | case2 rest ih => simp [splitLines, ih]
  | case3 rest hpair ih => simp [splitLines, ih]
  | case4 c rest hpair hreturn ih =>
      by_cases hc : c = '\n'
      · simp [hc, splitLines, ih]
      · rw [splitLines_cons hc hreturn, splitLines_cons hc hreturn, ih]

/-- A text with unified endings is its lines with one line feed between them. -/
theorem unifyNewlineChars_eq_joinLines (cs : List Char) :
    unifyNewlineChars cs = joinLines (splitLines cs) := by
  have hempty : ∀ cs, joinLines ([] :: splitLines cs) = '\n' :: joinLines (splitLines cs) := by
    intro cs
    obtain ⟨line, lines, hlines⟩ := exists_splitLines cs
    rw [hlines]
    rfl
  fun_induction unifyNewlineChars cs with
  | case1 => rfl
  | case2 rest ih => simp [splitLines, hempty, ih]
  | case3 rest hpair ih => simp [splitLines, hempty, ih]
  | case4 c rest hpair hreturn ih =>
      by_cases hc : c = '\n'
      · simp [hc, splitLines, hempty, ih]
      · obtain ⟨line, lines, hlines⟩ := exists_splitLines rest
        rw [splitLines_cons hc hreturn, ih, hlines, List.modifyHead_cons]
        cases lines <;> rfl

/-- Texts are equal up to their line endings exactly where they have the same lines. -/
theorem unifyNewlines_eq_iff {s s' : String} :
    unifyNewlines s = unifyNewlines s' ↔ splitLines s.toList = splitLines s'.toList := by
  rw [unifyNewlines, unifyNewlines, String.ofList_inj]
  constructor
  · intro h
    rw [← splitLines_unifyNewlineChars, h, splitLines_unifyNewlineChars]
  · intro h
    rw [unifyNewlineChars_eq_joinLines, h, unifyNewlineChars_eq_joinLines]

example : splitLines ['a', '\r', '\r', '\n', 'b', '\n', '\r', 'c'] =
    [['a'], [], ['b'], [], ['c']] := by
  decide

/-- Writes every line feed as a pair. -/
def pairFeeds (cs : List Char) : List Char :=
  cs.flatMap fun c => if c = '\n' then ['\r', '\n'] else [c]

/-- A copy with pairs has the same lines, unless the text has carriage returns of its own. -/
theorem splitLines_pairFeeds {cs : List Char} (h : '\r' ∉ cs) :
    splitLines (pairFeeds cs) = splitLines cs := by
  induction cs with
  | nil => rfl
  | cons c cs ih =>
      rw [List.mem_cons, not_or] at h
      obtain ⟨hreturn, hcs⟩ := h
      by_cases hc : c = '\n'
      · subst hc
        rw [pairFeeds, List.flatMap_cons, if_pos rfl]
        exact congrArg (List.cons []) (ih hcs)
      · rw [pairFeeds, List.flatMap_cons, if_neg hc, List.singleton_append,
          splitLines_cons hc (Ne.symm hreturn), splitLines_cons hc (Ne.symm hreturn)]
        exact congrArg _ (ih hcs)

/-! ## One replacement after the other -/

/-- Replaces every carriage return that a line feed follows, with the line feed. -/
def replacePairs : List Char → List Char
  | [] => []
  | '\r' :: '\n' :: rest => '\n' :: replacePairs rest
  | c :: rest => c :: replacePairs rest

/-- Replaces every carriage return. -/
def replaceReturns (cs : List Char) : List Char := cs.map fun c => if c = '\r' then '\n' else c

/-- The two replacements one after the other see the same endings as one pass from the left. -/
theorem unifyNewlineChars_eq_replace (cs : List Char) :
    unifyNewlineChars cs = replaceReturns (replacePairs cs) := by
  fun_induction unifyNewlineChars cs with
  | case1 => rfl
  | case2 rest ih => simp [replacePairs, replaceReturns, ih]
  | case3 rest hpair ih =>
      rw [replacePairs, ih]
      · rfl
      · exact fun rest' _ h => hpair rest' h
  | case4 c rest hpair hreturn ih =>
      rw [replacePairs, ih]
      · rw [replaceReturns, replaceReturns, List.map_cons, if_neg hreturn]
      · exact hpair

end OpcodeForge.Text
