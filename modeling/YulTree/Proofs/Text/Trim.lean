import Mathlib.Data.List.TakeWhile
import YulTree.Text.Trim

/-!
# What trimming leaves

A text is trimmed to the part of it that neither begins nor ends with a blank character, with blank
space around it (`trim_eq_iff`).
-/

namespace YulTree

section

variable {α : Type} {test : α → Bool}

/-- What is dropped at the end of a list. -/
theorem dropTrailing_split (test : α → Bool) (list : List α) :
    ∃ dropped, list = dropTrailing test list ++ dropped ∧ ∀ a ∈ dropped, test a = true := by
  induction list with
  | nil => exact ⟨[], rfl, by simp⟩
  | cons a rest inductionHypothesis =>
      obtain ⟨dropped, split, allDropped⟩ := inductionHypothesis
      rw [dropTrailing]
      cases kept : dropTrailing test rest with
      | nil =>
          rw [kept, List.nil_append] at split
          subst split
          by_cases isDropped : test a = true
          · refine ⟨a :: rest, by simp [isDropped], ?_⟩
            rintro b (_ | ⟨_, member⟩)
            · exact isDropped
            · exact allDropped b member
          · exact ⟨rest, by simp [isDropped], allDropped⟩
      | cons b others =>
          rw [kept] at split
          exact ⟨dropped, by rw [split]; rfl, allDropped⟩

/-- What is kept at the end of a list does not satisfy the test. -/
theorem dropTrailing_last {list front : List α} {last : α}
    (kept : dropTrailing test list = front ++ [last]) : test last = false := by
  induction list generalizing front with
  | nil => exact absurd kept (by simp [dropTrailing])
  | cons a rest inductionHypothesis =>
      rw [dropTrailing] at kept
      cases keptRest : dropTrailing test rest with
      | nil =>
          simp only [keptRest] at kept
          split at kept
          · exact absurd kept (by simp)
          · next notDropped =>
              cases front with
              | nil =>
                  obtain ⟨rfl, -⟩ := List.cons.inj kept
                  simpa using notDropped
              | cons b front => exact absurd (List.cons.inj kept).2 (by simp)
      | cons b others =>
          simp only [keptRest] at kept
          cases front with
          | nil => exact absurd (List.cons.inj kept).2 (by simp)
          | cons c front => exact inductionHypothesis (keptRest.trans (List.cons.inj kept).2)

theorem dropTrailing_dropTrailing (list : List α) :
    dropTrailing test (dropTrailing test list) = dropTrailing test list := by
  rcases List.eq_nil_or_concat (dropTrailing test list) with none | ⟨front, last, kept⟩
  · rw [none]
    rfl
  · rw [List.concat_eq_append] at kept
    rw [kept]
    exact dropTrailing_append_of_last (dropTrailing_last kept) front [] (by simp)

theorem dropTrailing_tail {a : α} {rest : List α}
    (kept : dropTrailing test (a :: rest) = a :: rest) : dropTrailing test rest = rest := by
  rw [dropTrailing] at kept
  cases keptRest : dropTrailing test rest with
  | nil =>
      simp only [keptRest] at kept
      split at kept
      · cases kept
      · exact (List.cons.inj kept).2
  | cons b others =>
      simp only [keptRest] at kept
      exact (List.cons.inj kept).2

/-- A list that ends as it should does so from any place on. -/
theorem dropTrailing_of_suffix {list part : List α} (suffix : part <:+ list)
    (kept : dropTrailing test list = list) : dropTrailing test part = part := by
  obtain ⟨front, rfl⟩ := suffix
  induction front with
  | nil => exact kept
  | cons a front inductionHypothesis => exact inductionHypothesis (dropTrailing_tail kept)

end

namespace Text

def IsBlank (text : Text) : Prop := ∀ c ∈ text, blank.contains c = true

theorem IsBlank.append_iff {first second : Text} :
    (first ++ second).IsBlank ↔ first.IsBlank ∧ second.IsBlank := List.forall_mem_append

theorem trimEnd_of_suffix {line part : Text} (suffix : part <:+ line)
    (trimmed : line.trimEnd = line) : part.trimEnd = part :=
  dropTrailing_of_suffix suffix trimmed

theorem trimEnd_blank {line : Text} (allBlank : ∀ c ∈ line, blank.contains c = true) :
    line.trimEnd = [] := by
  rcases List.eq_nil_or_concat line.trimEnd with none | ⟨front, last, kept⟩
  · exact none
  · rw [List.concat_eq_append] at kept
    obtain ⟨dropped, split, -⟩ := dropTrailing_split blank.contains line
    have isBlank : blank.contains last = true := by
      refine allBlank last ?_
      rw [split, ← trimEnd, kept]
      simp
    rw [dropTrailing_last kept] at isBlank
    cases isBlank

theorem trimEnd_append {front line : Text} (trimmed : line.trimEnd = line)
    (nonempty : line ≠ []) : trimEnd (front ++ line) = front ++ line := by
  rcases List.eq_nil_or_concat line with none | ⟨start, last, rfl⟩
  · exact absurd none nonempty
  · rw [List.concat_eq_append] at trimmed ⊢
    rw [← List.append_assoc]
    exact dropTrailing_append_of_last (dropTrailing_last trimmed) _ [] (by simp)

theorem trimEnd_eq_nil_iff {line : Text} : line.trimEnd = [] ↔ line.IsBlank := by
  constructor
  · intro gone
    obtain ⟨dropped, split, allBlank⟩ := dropTrailing_split blank.contains line
    rw [← trimEnd, gone, List.nil_append] at split
    exact split ▸ allBlank
  · exact trimEnd_blank

structure IsTrimmed (text : Text) : Prop where
  first : ∀ c ∈ text.head?, blank.contains c = false
  last : ∀ c ∈ text.getLast?, blank.contains c = false

theorem isTrimmed_trim (text : Text) : text.trim.IsTrimmed := by
  obtain ⟨dropped, split, -⟩ := dropTrailing_split blank.contains text.trimStart
  constructor
  · intro c member
    have starts : text.trimStart.head? = some c := by
      rw [split, List.head?_append]
      exact congrArg (Option.or · dropped.head?) member
    have notBlank := List.head?_dropWhile_not blank.contains text
    rw [trimStart] at starts
    rw [starts] at notBlank
    exact notBlank
  · intro c member
    obtain ⟨front, ends⟩ := List.getLast?_eq_some_iff.mp member
    exact dropTrailing_last ends

/-- A text is its trimmed part with blank space around it. -/
theorem exists_around_trim (text : Text) :
    ∃ front back, text = front ++ (text.trim ++ back) ∧ front.IsBlank ∧ back.IsBlank := by
  obtain ⟨dropped, split, allBlank⟩ := dropTrailing_split blank.contains text.trimStart
  refine ⟨text.takeWhile blank.contains, dropped, ?_, List.all_eq_true.mp List.all_takeWhile,
    allBlank⟩
  have whole : text.takeWhile blank.contains ++ text.trimStart = text :=
    List.takeWhile_append_dropWhile
  rw [split] at whole
  exact whole.symm

/-- Blank space around a text that is trimmed does not count. -/
theorem trim_of_around {front label back : Text} (frontBlank : front.IsBlank)
    (trimmed : label.IsTrimmed) (backBlank : back.IsBlank) :
    trim (front ++ (label ++ back)) = label := by
  have started : trimStart (front ++ (label ++ back)) = trimStart (label ++ back) :=
    List.dropWhile_append_of_pos frontBlank
  rw [trim, started]
  rcases List.eq_nil_or_concat label with rfl | ⟨start, last, rfl⟩
  · have nothing : trimStart back = [] := List.dropWhile_eq_nil_iff.mpr backBlank
    rw [List.nil_append, nothing]
    rfl
  · rw [List.concat_eq_append] at trimmed ⊢
    have lastKept : blank.contains last = false := trimmed.last last List.getLast?_concat
    have kept : trimStart (start ++ [last] ++ back) = start ++ [last] ++ back := by
      cases start with
      | nil => exact List.dropWhile_cons_of_neg (by simp [lastKept])
      | cons c rest =>
          have firstKept : blank.contains c = false := trimmed.first c rfl
          exact List.dropWhile_cons_of_neg (by simp [firstKept])
    rw [kept, List.append_assoc]
    exact dropTrailing_append_of_last lastKept start back backBlank

theorem trim_eq_iff {text label : Text} :
    text.trim = label ↔ label.IsTrimmed ∧
      ∃ front back, text = front ++ (label ++ back) ∧ front.IsBlank ∧ back.IsBlank := by
  constructor
  · rintro rfl
    exact ⟨isTrimmed_trim text, exists_around_trim text⟩
  · rintro ⟨trimmed, front, back, rfl, frontBlank, backBlank⟩
    exact trim_of_around frontBlank trimmed backBlank

/-- Trimming drops blank space that is put around a text. -/
theorem trim_around {front back : Text} (frontBlank : front.IsBlank) (text : Text)
    (backBlank : back.IsBlank) : trim (front ++ (text ++ back)) = text.trim := by
  obtain ⟨before, behind, split, beforeBlank, behindBlank⟩ := exists_around_trim text
  have whole : front ++ (text ++ back) = (front ++ before) ++ (text.trim ++ (behind ++ back)) := by
    rw [List.append_assoc, ← List.append_assoc text.trim, ← List.append_assoc before, ← split]
  rw [whole]
  exact trim_of_around (IsBlank.append_iff.mpr ⟨frontBlank, beforeBlank⟩) (isTrimmed_trim text)
    (IsBlank.append_iff.mpr ⟨behindBlank, backBlank⟩)

theorem trim_eq_nil_iff {text : Text} : text.trim = [] ↔ text.IsBlank := by
  constructor
  · intro gone
    obtain ⟨front, back, split, frontBlank, backBlank⟩ := exists_around_trim text
    rw [gone, List.nil_append] at split
    exact split ▸ IsBlank.append_iff.mpr ⟨frontBlank, backBlank⟩
  · intro isBlank
    have around := trim_around isBlank [] (List.forall_mem_nil _)
    rw [List.append_nil, List.append_nil] at around
    exact around

end Text

end YulTree
