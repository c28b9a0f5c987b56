import Kwiry.Pdf.SplitWindows

/-!
# What the Windows Accept

A stream is accepted when it is space, operations, and comments with space after each. The windows
look for the end in another way: all comments first, and then space. They find it unless space
stands between two of these comments.
-/

namespace Kwiry.Pdf.Split

open Foundations List

/-! ## §1 What is accepted -/

/-- Comments with space after each. -/
inductive SpacedComments : Bytes → Prop where
  | nil : SpacedComments []
  | comment {s r : Bytes} (h : comment s = some r) (hrest : SpacedComments (contentSpace r)) :
      SpacedComments s

/-- Space, operations, and comments with space after each. -/
def Accepts (content : Bytes) : Prop :=
  ∃ r, Relation.ReflTransGen OperationStep (contentSpace content) r ∧ SpacedComments r

/-- Space between two comments. -/
def SpaceBetweenComments (r : Bytes) : Prop :=
  comment (contentSpace (comments r)) ≠ none

def ReachesEnd (content : Bytes) (budget : ℕ) : Prop :=
  outcome (windows content budget) = some (.finish content.length)

lemma comments_of_some {s r : Bytes} (h : comment s = some r) : comments s = comments r :=
  many_of_some (fun s t hstep => (comment_consuming s t hstep).length_lt) h

lemma comments_of_none {s : Bytes} (h : comment s = none) : comments s = s :=
  many_of_none h

/-! ## §2 No operation begins with space -/

/-- Nothing, or something that begins with space. -/
def Blank (s : Bytes) : Prop := ∀ b ∈ s.head?, isContentSpace b = true

lemma tag_none_of_blank {word : String} {s : Bytes} (hs : Blank s) {a : UInt8} {rest : Bytes}
    (hword : ascii word = a :: rest) (ha : isContentSpace a = false) : tag word s = none := by
  cases hread : tag word s with
  | none => rfl
  | some r =>
    have hhead : a ∈ s.head? := by
      rw [tag_eq_some.mp hread, hword]
      rfl
    rw [hs a hhead] at ha
    cases ha

lemma dropWhile_of_blank {s : Bytes} (hs : Blank s) {kind : UInt8 → Bool}
    (hkind : ∀ b, isContentSpace b = true → kind b = false) : s.dropWhile kind = s := by
  cases s with
  | nil => rfl
  | cons b rest => simp [hkind b (hs b rfl)]

lemma not_digit_of_space (b : UInt8) (h : isContentSpace b = true) : isDigit b = false := by
  simp only [isContentSpace, mem_cons, not_mem_nil, or_false, decide_eq_true_eq] at h
  rcases h with rfl | rfl | rfl | rfl <;> rfl

lemma not_operatorByte_of_space (b : UInt8) (h : isContentSpace b = true) :
    isOperatorByte b = false := by
  simp only [isContentSpace, mem_cons, not_mem_nil, or_false, decide_eq_true_eq] at h
  rcases h with rfl | rfl | rfl | rfl <;> rfl

lemma oneOrMore_of_blank {s : Bytes} (hs : Blank s) {kind : UInt8 → Bool}
    (hkind : ∀ b, isContentSpace b = true → kind b = false) : oneOrMore kind s = none := by
  simp only [oneOrMore, dropWhile_of_blank hs hkind, Nat.lt_irrefl, if_false]

lemma number_of_blank {s : Bytes} (hs : Blank s) : number s = none := by
  have hsign : sign s = s := by
    rw [sign, tag_none_of_blank hs rfl rfl, tag_none_of_blank hs rfl rfl]
    rfl
  have hpoint : tag "." s = none := tag_none_of_blank hs rfl rfl
  simp [number, hsign, dropWhile_of_blank hs not_digit_of_space, hpoint]

/-- No object begins with space. -/
lemma object_of_blank {s : Bytes} (hs : Blank s) (depth n : ℕ) :
    object depth false s n = (none, n + 1) := by
  have hatoms : Scanner.firstOf (atoms false) s = none := by
    simp only [Scanner.firstOf, atoms, findSome?_eq_none_iff, mem_append, mem_cons,
      not_mem_nil, or_false]
    intro p hp
    obtain ((rfl | rfl | rfl) | href) | rfl | rfl | rfl := hp
    · exact tag_none_of_blank hs rfl rfl
    · exact tag_none_of_blank hs rfl rfl
    · exact tag_none_of_blank hs rfl rfl
    · cases href
    · exact number_of_blank hs
    · rw [name, tag_none_of_blank hs rfl rfl]
      rfl
    · rw [literalString, tag_none_of_blank hs rfl rfl]
      rfl
  have hwith : ∀ member, objectWith member false s n = (none, n + 1) := by
    intro member
    have hopen : tag "<<" s = none := tag_none_of_blank hs rfl rfl
    have hdictionary : dictionary member s (n + 1) = (none, n + 1) := by
      simp only [dictionary, hopen]
    have hbracket : tag "[" s = none := tag_none_of_blank hs rfl rfl
    have harray : array member s (n + 1) = (none, n + 1) := by
      simp only [array, hbracket]
    have hhex : hexString s = none := by
      rw [hexString, tag_none_of_blank hs rfl rfl]
      rfl
    simp only [objectWith, Counting.orElse, Scanner.plain, hatoms, hdictionary, hhex, harray]
  cases depth with
  | zero => exact hwith none
  | succ depth => exact hwith _

/-- No operation begins with space, after comments. -/
lemma operation_of_blank {s : Bytes} (hs : Blank (comments s)) (n : ℕ) :
    (operation s n).1 = none := by
  have hword : tag "BI" (comments s) = none := tag_none_of_blank hs rfl rfl
  have himage : inlineImage (comments s) n = (none, n) := by
    simp only [inlineImage, hword]
  have hoperands : operands (comments s) n = (comments s, n + 1) := by
    refine run_done ?_
    simp only [operandRound, operand, object_of_blank hs]
  simp only [operation, Counting.orElse, himage, plainOperation, hoperands, operator,
    oneOrMore_of_blank hs not_operatorByte_of_space, Option.map_none]

/-! ## §3 The end of the stream -/

/-- Space is either there or not. -/
lemma blank_or_contentSpace (s : Bytes) : Blank s ∨ contentSpace s = s := by
  cases s with
  | nil => exact .inr rfl
  | cons b rest =>
    cases hb : isContentSpace b with
    | true =>
      left
      intro c hc
      cases hc
      exact hb
    | false =>
      right
      simp [contentSpace, hb]

lemma comment_of_blank {s : Bytes} (hs : Blank s) : comment s = none := by
  rw [comment, tag_none_of_blank hs rfl rfl]
  rfl

lemma comments_of_blank {s : Bytes} (hs : Blank s) : comments s = s :=
  comments_of_none (comment_of_blank hs)

lemma blank_nil : Blank [] := by
  intro b hb
  cases hb

namespace SpacedComments

variable {s : Bytes}

lemma blank_comments (h : SpacedComments s) : Blank (comments s) := by
  induction h with
  | nil =>
    rw [comments_of_blank blank_nil]
    exact blank_nil
  | @comment s r hread hrest ih =>
    rw [comments_of_some hread]
    rcases blank_or_contentSpace r with hblank | hspace
    · rw [comments_of_blank hblank]
      exact hblank
    · rw [hspace] at ih
      exact ih

lemma after_comments (h : SpacedComments s) : SpacedComments (contentSpace (comments s)) := by
  induction h with
  | nil =>
    rw [comments_of_blank blank_nil]
    exact .nil
  | @comment s r hread hrest ih =>
    rw [comments_of_some hread]
    rcases blank_or_contentSpace r with hblank | hspace
    · rw [comments_of_blank hblank]
      exact hrest
    · rw [hspace] at ih
      exact ih

lemma eq_nil (h : SpacedComments s) (hnone : Split.comment s = none) : s = [] := by
  cases h with
  | nil => rfl
  | comment hread =>
    rw [hnone] at hread
    cases hread

lemma ends_iff (h : SpacedComments s) :
    contentSpace (comments s) = [] ↔ ¬ SpaceBetweenComments s := by
  unfold SpaceBetweenComments
  rw [not_not]
  constructor
  · intro hnil
    rw [hnil]
    exact comment_of_blank blank_nil
  · exact fun hnone => h.after_comments.eq_nil hnone

end SpacedComments

lemma spacedComments_of_ends {s : Bytes} (hspace : contentSpace s = s)
    (hends : contentSpace (comments s) = []) : SpacedComments s := by
  induction hlength : s.length using Nat.strong_induction_on generalizing s with
  | _ n ih =>
    subst hlength
    cases hread : comment s with
    | none =>
      rw [comments_of_none hread, hspace] at hends
      rw [hends]
      exact .nil
    | some r =>
      refine .comment hread ?_
      rw [comments_of_some hread] at hends
      rcases blank_or_contentSpace r with hblank | hrspace
      · rw [comments_of_blank hblank] at hends
        rw [hends]
        exact .nil
      · rw [hrspace]
        exact ih r.length (comment_consuming s r hread).length_lt hrspace hends rfl

lemma Operations.contentSpace_end {total : ℕ} {s t : Bytes} {items : List (ℕ × Bool)}
    (h : Operations total s items t) (hs : contentSpace s = s) : contentSpace t = t := by
  induction h with
  | stuck => exact hs
  | step hread _ ih => exact ih (contentSpace_of_operation hread)

section Acceptance

variable {content t : Bytes} {items : List (ℕ × Bool)}

lemma reachesEnd_iff (budget : ℕ)
    (hops : Operations content.length (contentSpace content) items t) :
    ReachesEnd content budget ↔ contentSpace (comments t) = [] := by
  rw [ReachesEnd, outcome_windows budget hops, Option.some.injEq, lastWindow]
  split
  · next hends => exact iff_of_true rfl hends
  · next hends => exact iff_of_false (by simp) hends

lemma accepts_iff (hops : Operations content.length (contentSpace content) items t) :
    Accepts content ↔ SpacedComments t := by
  constructor
  · intro h
    obtain ⟨r, hreach, hspaced⟩ := h
    rwa [← hops.eq_of_reaches hreach (operation_of_blank hspaced.blank_comments 0)]
  · exact fun hspaced => ⟨t, hops.reaches, hspaced⟩

/-- The windows reach the end of exactly what is accepted, and never call it unparsable, if and only
if no space is between two comments after the last operation. -/
theorem reachesEnd_iff_accepts_iff (content : Bytes) (budget : ℕ) :
    ((ReachesEnd content budget ↔ Accepts content) ∧
        (Accepts content → ∀ stop, outcome (windows content budget) ≠ some (.unparsable stop))) ↔
      ∀ r, Relation.ReflTransGen OperationStep (contentSpace content) r → SpacedComments r →
        ¬ SpaceBetweenComments r := by
  obtain ⟨items, t, hops⟩ := exists_operations content.length (contentSpace content)
  have hspace := hops.contentSpace_end (contentSpace_contentSpace content)
  rw [reachesEnd_iff budget hops, accepts_iff hops]
  constructor
  · intro h r hreach hspaced
    have hrt := hops.eq_of_reaches hreach (operation_of_blank hspaced.blank_comments 0)
    rw [← hspaced.ends_iff, hrt]
    exact h.1.mpr (hrt ▸ hspaced)
  · intro h
    have hends : SpacedComments t → contentSpace (comments t) = [] :=
      fun hspaced => hspaced.ends_iff.mpr (h t hops.reaches hspaced)
    refine ⟨⟨spacedComments_of_ends hspace, hends⟩, ?_⟩
    intro hspaced stop
    have hreaches := (reachesEnd_iff budget hops).mpr (hends hspaced)
    rw [hreaches]
    simp

end Acceptance

/-- An operation, a comment, a blank and another comment. -/
def blankedComments : Bytes := ascii "q\n%a\n %b\n"

theorem blankedComments_unparsable :
    Accepts blankedComments ∧
      ¬ (ReachesEnd blankedComments maxContentWindowBytes) ∧
      outcome (windows blankedComments maxContentWindowBytes) = some (.unparsable 2) := by
  have hstep : OperationStep (contentSpace blankedComments) (ascii "%a\n %b\n") := by
    unfold OperationStep
    decide +kernel
  have hspaced : SpacedComments (ascii "%a\n %b\n") := by
    refine .comment (r := ascii " %b\n") (by decide +kernel) ?_
    exact .comment (r := []) (by decide +kernel) .nil
  refine ⟨⟨_, .single hstep, hspaced⟩, ?_, by decide +kernel⟩
  unfold ReachesEnd
  decide +kernel

end Kwiry.Pdf.Split
