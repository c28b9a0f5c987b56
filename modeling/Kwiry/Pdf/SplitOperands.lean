import Kwiry.Pdf.SplitWindows

/-!
# The Objects of an Operation

What decoding an operation would build: its operands as trees of objects. The scanner builds
nothing and only counts, on every attempt to read an object. It comes to the objects of the
operation, one more for the attempt that ends the operands, and those of an inline image that it
began and gave up.
-/

namespace Kwiry.Pdf.Split

open Foundations List

/-! ## §1 Objects as trees -/

/-- A direct object. Words, numbers, names, strings and references are scalars. -/
inductive DirectObject where
  | scalar
  | array (members : List DirectObject)
  | dictionary (values : List DirectObject)

mutual

/-- An object and all it contains. -/
def DirectObject.count : DirectObject → ℕ
  | .scalar => 1
  | .array members => 1 + countAll members
  | .dictionary values => 1 + countAll values

def countAll : List DirectObject → ℕ
  | [] => 0
  | o :: rest => o.count + countAll rest

end

lemma countAll_append (first second : List DirectObject) :
    countAll (first ++ second) = countAll first + countAll second := by
  induction first with
  | nil => simp [countAll]
  | cons o rest ih =>
    simp only [cons_append, countAll, ih]
    omega

lemma countAll_snoc (found : List DirectObject) (o : DirectObject) :
    countAll (found ++ [o]) = countAll found + o.count := by
  simp [countAll_append, countAll]

/-- Reads an object: what of it is there, and what is left if it is complete. -/
abbrev ObjectReader := Bytes → DirectObject × Option Bytes

def readMemberRound (read : ObjectReader) :
    Bytes × List DirectObject →
      Round (Bytes × List DirectObject) (List DirectObject × Option Bytes)
  | ([], found) => .done (found, none)
  | (b :: r, found) =>
    if b = 93 then .done (found, some r)
    else match read (b :: r) with
      | (o, some t) => .again (space t, found ++ [o])
      | (o, none) => .done (found ++ [o], none)

def readEntryRound (closing : String) (read : ObjectReader) :
    Bytes × List DirectObject →
      Round (Bytes × List DirectObject) (List DirectObject × Option Bytes) := fun (s, found) =>
  match tag closing s with
  | some r => .done (found, some r)
  | none =>
    match name s with
    | none => .done (found, none)
    | some t =>
      match read (space t) with
      | (o, some u) => .again (space u, found ++ [o])
      | (o, none) => .done (found ++ [o], none)

/-- Objects up to a bracket. -/
def readMembers (read : ObjectReader) (s : Bytes) : List DirectObject × Option Bytes :=
  run (·.1.length) (readMemberRound read) (s, [])

/-- The objects under names, up to a word. -/
def readEntries (closing : String) (read : ObjectReader) (s : Bytes) :
    List DirectObject × Option Bytes :=
  run (·.1.length) (readEntryRound closing read) (s, [])

/-- An object; where none begins, a scalar that is not complete. -/
def readObjectWith (member : Option ObjectReader) (withReference : Bool) : ObjectReader := fun s =>
  match Scanner.firstOf (atoms withReference) s with
  | some r => (.scalar, some r)
  | none =>
    match tag "<<" s, member with
    | some r, some read =>
      ((readEntries ">>" read (space r)).map .dictionary id)
    | _, _ =>
      match hexString s with
      | some r => (.scalar, some r)
      | none =>
        match tag "[" s, member with
        | some r, some read => ((readMembers read (space r)).map .array id)
        | _, _ => (.scalar, none)

def readObject : ℕ → Bool → ObjectReader
  | 0, withReference => readObjectWith none withReference
  | depth + 1, withReference => readObjectWith (some (readObject depth true)) withReference

/-! ## §2 The scanner counts what the reader begins -/

/-- A scanner that leaves what a reader leaves, and counts what it reads. -/
def Counts (object : Counting UInt8) (read : ObjectReader) : Prop :=
  ∀ s n, object s n = ((read s).2, n + (read s).1.count)

section Counting

variable {object : Counting UInt8} {read : ObjectReader}

section

variable (h : Counts object read) (hobject : Counting.Consuming object)

include h hobject

lemma Counts.within {s r : Bytes} {o : DirectObject} (hread : read s = (o, some r)) :
    Within r s := by
  refine hobject s 0 r (0 + o.count) ?_
  rw [h s 0, hread]

lemma readMemberRound_lowers : Lowers (·.1.length) (readMemberRound read) := by
  intro state next hround
  obtain ⟨s, found⟩ := state
  cases s with
  | nil => cases hround
  | cons b r =>
    simp only [readMemberRound] at hround
    split at hround
    · cases hround
    · split at hround
      · next o t hread =>
        cases hround
        exact ((h.within hobject hread).of_suffix (space_suffix t)).length_lt
      · cases hround

lemma readEntryRound_lowers (closing : String) :
    Lowers (·.1.length) (readEntryRound closing read) := by
  intro state next hround
  obtain ⟨s, found⟩ := state
  simp only [readEntryRound] at hround
  split at hround
  · cases hround
  · split at hround
    · cases hround
    · next t hname =>
      split at hround
      · next o u hread =>
        cases hround
        have hvalue := (h.within hobject hread).suffix.trans (space_suffix t)
        exact (Within.of_suffix ((space_suffix u).trans hvalue)
          (name_consuming s t hname)).length_lt
      · cases hround

end

/-- The scanner's state and the reader's: the same position, and the objects found so far
    counted. -/
def SameCount (n : ℕ) (state : Bytes × ℕ) (other : Bytes × List DirectObject) : Prop :=
  state.1 = other.1 ∧ state.2 = n + countAll other.2

def SameResult (n : ℕ) (result : Option Bytes × ℕ) (other : List DirectObject × Option Bytes) :
    Prop :=
  result = (other.2, n + countAll other.1)

lemma memberRound_related (h : Counts object read) (n : ℕ) {state : Bytes × ℕ}
    {other : Bytes × List DirectObject} (hsame : SameCount n state other) :
    Round.Related (SameCount n) (SameResult n) (memberRound object state)
      (readMemberRound read other) := by
  obtain ⟨s, k⟩ := state
  obtain ⟨_, found⟩ := other
  simp only [SameCount] at hsame
  obtain ⟨rfl, rfl⟩ := hsame
  cases s with
  | nil => exact .done rfl
  | cons b r =>
    simp only [memberRound, readMemberRound]
    split
    · exact .done rfl
    · rw [h (b :: r)]
      cases hread : read (b :: r) with
      | mk o left =>
        cases left with
        | none => exact .done (by simp [SameResult, countAll_snoc, Nat.add_assoc])
        | some t => exact .again ⟨rfl, by simp [countAll_snoc, Nat.add_assoc]⟩

lemma entryRound_related (h : Counts object read) (closing : String) (n : ℕ)
    {state : Bytes × ℕ} {other : Bytes × List DirectObject} (hsame : SameCount n state other) :
    Round.Related (SameCount n) (SameResult n) (entryRound closing object state)
      (readEntryRound closing read other) := by
  obtain ⟨s, k⟩ := state
  obtain ⟨_, found⟩ := other
  simp only [SameCount] at hsame
  obtain ⟨rfl, rfl⟩ := hsame
  simp only [entryRound, readEntryRound]
  cases htag : tag closing s with
  | some r => exact .done rfl
  | none =>
    cases hname : name s with
    | none => exact .done rfl
    | some t =>
      simp only
      rw [h (space t)]
      cases hread : read (space t) with
      | mk o left =>
        cases left with
        | none => exact .done (by simp [SameResult, countAll_snoc, Nat.add_assoc])
        | some u => exact .again ⟨rfl, by simp [countAll_snoc, Nat.add_assoc]⟩

lemma members_eq_read (h : Counts object read) (hobject : Counting.Consuming object) (s : Bytes)
    (n : ℕ) :
    run (·.1.length) (memberRound object) (s, n) =
      ((readMembers read s).2, n + countAll (readMembers read s).1) :=
  run_relation (R := SameCount n) (Q := SameResult n)
    (fun _ _ hround => (memberRound_again hobject hround).length_lt)
    (readMemberRound_lowers h hobject) (fun _ _ => memberRound_related h n) ⟨rfl, rfl⟩

lemma entries_eq_read (h : Counts object read) (hobject : Counting.Consuming object)
    (closing : String) (s : Bytes) (n : ℕ) :
    run (·.1.length) (entryRound closing object) (s, n) =
      ((readEntries closing read s).2, n + countAll (readEntries closing read s).1) :=
  run_relation (R := SameCount n) (Q := SameResult n)
    (fun _ _ hround => (entryRound_again hobject hround).length_lt)
    (readEntryRound_lowers h hobject closing) (fun _ _ => entryRound_related h closing n) ⟨rfl, rfl⟩

end Counting

lemma hexString_of_dictionary {s r : Bytes} (h : tag "<<" s = some r) :
    hexString s = none ∧ tag "[" s = none := by
  rw [tag_eq_some.mp h]
  exact ⟨rfl, rfl⟩

/-- Members are read and counted alike, where there are any. -/
inductive SameMember : Option (Counting UInt8) → Option ObjectReader → Prop where
  | none : SameMember none none
  | some {object : Counting UInt8} {read : ObjectReader} (h : Counts object read)
      (hobject : Counting.Consuming object) : SameMember (some object) (some read)

lemma objectWith_eq_read {member : Option (Counting UInt8)} {read : Option ObjectReader}
    (h : SameMember member read) (withReference : Bool) :
    Counts (objectWith member withReference) (readObjectWith read withReference) := by
  intro s n
  unfold objectWith readObjectWith Counting.orElse Scanner.plain
  cases hatom : Scanner.firstOf (atoms withReference) s with
  | some r => rfl
  | none =>
    cases h with
    | none =>
      cases hopen : tag "<<" s <;> cases hhex : hexString s <;> cases hbracket : tag "[" s <;>
        simp [dictionary, array, DirectObject.count, hopen, hbracket]
    | some h hobject =>
      cases hopen : tag "<<" s with
      | some r =>
        obtain ⟨hhex, hbracket⟩ := hexString_of_dictionary hopen
        simp only [dictionary, array, hopen, hhex, hbracket, entries_eq_read h hobject]
        cases hentries : readEntries ">>" _ (space r) with
        | mk values left =>
          cases left <;> simp [DirectObject.count, Nat.add_assoc]
      | none =>
        simp only [dictionary, hopen]
        cases hhex : hexString s with
        | some r => rfl
        | none =>
          cases hbracket : tag "[" s with
          | none => simp [array, hbracket, DirectObject.count]
          | some r =>
            simp only [array, hbracket, members_eq_read h hobject]
            simp [DirectObject.count, Nat.add_assoc]

/-- The scanner counts an object and all it contains. -/
lemma object_eq_read (depth : ℕ) (withReference : Bool) :
    Counts (object depth withReference) (readObject depth withReference) := by
  induction depth generalizing withReference with
  | zero => exact objectWith_eq_read .none withReference
  | succ depth ih =>
    exact objectWith_eq_read (.some (ih true) (object_consuming depth true)) withReference

/-! ## §3 The objects of an operation -/

/-- The values of an inline image, and what is left if it is complete. -/
def readImage (s : Bytes) : List DirectObject × Option Bytes :=
  match tag "BI" s with
  | none => ([], none)
  | some r =>
    match readEntries "ID" (readObject maxNestingDepth true) (contentSpace r) with
    | (values, none) => (values, none)
    | (values, some t) => (values, (imageBytes (contentSpace t)).map contentSpace)

def readOperandRound :
    Bytes × List DirectObject →
      Round (Bytes × List DirectObject) (List DirectObject × Bytes) := fun (s, found) =>
  match readObject maxNestingDepth false s with
  | (o, some r) => .again (contentSpace r, found ++ [o])
  | (_, none) => .done (found, s)

/-- The operands, and what is left after them. -/
def readOperands (s : Bytes) : List DirectObject × Bytes :=
  run (·.1.length) readOperandRound (s, [])

/-- The objects that decoding an operation builds. -/
def operandObjects (s : Bytes) : List DirectObject :=
  match readImage (comments s) with
  | (values, some _) => values
  | (_, none) => (readOperands (comments s)).1

/-- How many objects an operation declares, with all that arrays and dictionaries contain. -/
def declared (s : Bytes) : ℕ := countAll (operandObjects s)

/-- An operation that is no inline image, holds no more objects than are accepted, and reaches their
number with those of an inline image that was begun before it and given up. -/
def Miscounted (s : Bytes) : Prop :=
  match readImage (comments s) with
  | (_, some _) => False
  | (begun, none) =>
    declared s ≤ maxOperandsPerOperation ∧
      maxOperandsPerOperation ≤ countAll begun + declared s

lemma inlineImage_eq_read (s : Bytes) (n : ℕ) :
    inlineImage s n = ((readImage s).2, n + countAll (readImage s).1) := by
  unfold inlineImage readImage
  cases htag : tag "BI" s with
  | none => simp [countAll]
  | some r =>
    simp only [entries_eq_read (object_eq_read maxNestingDepth true)
      (object_consuming maxNestingDepth true)]
    cases hentries : readEntries "ID" (readObject maxNestingDepth true) (contentSpace r) with
    | mk values left => cases left <;> rfl

lemma readOperandRound_lowers : Lowers (·.1.length) readOperandRound := by
  intro state next hround
  obtain ⟨s, found⟩ := state
  simp only [readOperandRound] at hround
  split at hround
  · next o r hread =>
    cases hround
    have hwithin := (object_eq_read maxNestingDepth false).within
      (object_consuming maxNestingDepth false) hread
    exact (hwithin.of_suffix (contentSpace_suffix r)).length_lt
  · cases hround

/-- The attempt that ends the operands is counted, too. -/
theorem operands_eq_read (s : Bytes) (n : ℕ) :
    operands s n = ((readOperands s).2,
      n + countAll (readOperands s).1 +
        (readObject maxNestingDepth false (readOperands s).2).1.count) := by
  refine run_relation (R := SameCount n) (Q := fun result other => result = (other.2,
      n + countAll other.1 + (readObject maxNestingDepth false other.2).1.count))
    operandRound_lowers readOperandRound_lowers ?_ (⟨rfl, rfl⟩ : SameCount n (s, n) (s, []))
  intro state other hsame
  obtain ⟨t, k⟩ := state
  obtain ⟨_, found⟩ := other
  simp only [SameCount] at hsame
  obtain ⟨rfl, rfl⟩ := hsame
  simp only [operandRound, readOperandRound, operand, object_eq_read maxNestingDepth false t]
  cases hread : readObject maxNestingDepth false t with
  | mk o left =>
    cases left with
    | none => exact .done (by rw [hread])
    | some r => exact .again ⟨rfl, by simp [countAll_snoc, Nat.add_assoc]⟩

lemma readOperands_ends (s : Bytes) :
    (readObject maxNestingDepth false (readOperands s).2).2 = none := by
  refine run_induction (P := fun _ => True)
    (Q := fun result => (readObject maxNestingDepth false result.2).2 = none)
    readOperandRound_lowers (fun _ _ _ _ => trivial) ?_ trivial
  intro state result _ hround
  obtain ⟨t, found⟩ := state
  simp only [readOperandRound] at hround
  split at hround
  · cases hround
  · next o hread =>
    cases hround
    rw [hread]

lemma readObject_of_operator {s r : Bytes} {o : DirectObject} (hoperator : operator s = some r)
    (hread : readObject maxNestingDepth false s = (o, none)) : o.count = 1 := by
  have htag : ∀ {word : String} {a : UInt8} {rest : Bytes}, ascii word = a :: rest →
      isOperatorByte a = false → tag word s = none := by
    intro word a rest hword ha
    cases htag : tag word s with
    | none => rfl
    | some u =>
      rw [tag_eq_some.mp htag, hword, operator, oneOrMore] at hoperator
      simp [ha] at hoperator
  have hopen : tag "<<" s = none := htag rfl rfl
  have hbracket : tag "[" s = none := htag rfl rfl
  show o.count = 1
  have hscalar : ∀ member, (readObjectWith member false s).1 = .scalar := by
    intro member
    unfold readObjectWith
    simp only [hopen, hbracket]
    split
    · rfl
    · split <;> rfl
  have ho : o = .scalar := by
    have hfirst := hscalar (some (readObject 99 true))
    have hsame : readObject maxNestingDepth false s =
        readObjectWith (some (readObject 99 true)) false s := rfl
    rw [← hsame, hread] at hfirst
    exact hfirst
  rw [ho]
  rfl

/-- What the scanner comes to for an operation: its objects if it is an inline image, and else one
more, besides those of an image that was given up. -/
theorem operation_count {s r : Bytes} {k : ℕ} (h : operation s 0 = (some r, k)) :
    ((readImage (comments s)).2 ≠ none ∧ k = declared s) ∨
      ((readImage (comments s)).2 = none ∧
        k = countAll (readImage (comments s)).1 + declared s + 1) := by
  unfold operation Counting.orElse at h
  rw [inlineImage_eq_read] at h
  unfold declared operandObjects
  cases himage : readImage (comments s) with
  | mk begun left =>
    rw [himage] at h
    cases left with
    | some left =>
      left
      refine ⟨by simp, ?_⟩
      simpa using (Prod.mk.inj h).2.symm
    | none =>
      right
      refine ⟨rfl, ?_⟩
      simp only [plainOperation, operands_eq_read, Prod.mk.injEq, Option.map_eq_some_iff] at h
      obtain ⟨⟨t, hoperator, _⟩, rfl⟩ := h
      -- the operands ended with an attempt that found nothing
      have hended :
          (readObject maxNestingDepth false (readOperands (comments s)).2).1.count = 1 := by
        cases hread : readObject maxNestingDepth false (readOperands (comments s)).2 with
        | mk o left =>
          cases left with
          | none => exact readObject_of_operator hoperator hread
          | some u =>
            have hstuck := readOperands_ends (comments s)
            rw [hread] at hstuck
            cases hstuck
      simp only [hended, Nat.zero_add]

/-- The scanner's count and the number of objects agree on the limit when the operation is not
miscounted. -/
theorem count_exact_iff {s r : Bytes} {k : ℕ} (h : operation s 0 = (some r, k)) :
    (maxOperandsPerOperation < k ↔ maxOperandsPerOperation < declared s) ↔ ¬ Miscounted s := by
  unfold Miscounted
  have hcount := operation_count h
  cases himage : readImage (comments s) with
  | mk begun left =>
    rw [himage] at hcount
    cases left with
    | some left =>
      have hk : k = declared s := by simpa using hcount
      simp [hk]
    | none =>
      have hk : k = countAll begun + declared s + 1 := by simpa using hcount
      simp only
      omega

/-! ## §4 Operations left undecoded -/

section

variable {content s r : Bytes} {budget : ℕ}

/-- An operation inside a window that is decoded. -/
def Decoded (content : Bytes) (budget : ℕ) (s r : Bytes) : Prop :=
  ∃ entry ∈ windows content budget, entry.2.isOversize = false ∧
    entry.1 ≤ content.length - s.length ∧ content.length - r.length ≤ entry.2.stop

/-- An operation reported as too large to decode. -/
def ReportedOversize (content : Bytes) (budget : ℕ) (r : Bytes) : Prop :=
  ∃ start, (start, content.length - r.length) ∈ oversizeSpans (windows content budget)

/-- An operation that steps lead to is one of the operations of the stream. -/
theorem Operations.mem_itemsFrom {total : ℕ} {first t : Bytes} {items : List (ℕ × Bool)}
    (hops : Operations total first items t) (hreach : Relation.ReflTransGen OperationStep first s)
    {k : ℕ} (h : operation s 0 = (some r, k)) :
    (total - s.length, total - r.length, decide (maxOperandsPerOperation < k)) ∈
      itemsFrom (total - first.length) items := by
  induction hops with
  | stuck hread =>
    rcases hreach.cases_head with rfl | ⟨u, hstep, _⟩
    · rw [h] at hread
      cases hread
    · exact absurd (hread.symm.trans hstep) (by simp)
  | step hread _ ih =>
    rcases hreach.cases_head with rfl | ⟨u, hstep, hreach⟩
    · cases hread.symm.trans h
      exact mem_cons_self
    · have hsame : some _ = some u := (congrArg Prod.fst hread).symm.trans hstep
      cases hsame
      exact mem_cons_of_mem _ (ih hreach)

section

variable {k : ℕ} (hreach : Relation.ReflTransGen OperationStep (contentSpace content) s)
  (h : operation s 0 = (some r, k))

include hreach h

lemma reportedOversize_iff : ReportedOversize content budget r ↔ maxOperandsPerOperation < k := by
  obtain ⟨items, t, hops⟩ := exists_operations content.length (contentSpace content)
  have hrising := hops.rising (contentSpace_suffix content).length_le
  have hmem := mem_of_mem_itemsFrom (hops.mem_itemsFrom hreach h)
  rw [ReportedOversize, oversizeSpans_windows budget hops, mem_spansFrom hrising]
  constructor
  · intro hlarge
    exact of_decide_eq_true (hrising.large_unique hmem hlarge)
  · intro hlarge
    rwa [decide_eq_true hlarge] at hmem

/-- An operation that is not reported is decoded. -/
lemma decoded_of_not_reported (hsmall : ¬ maxOperandsPerOperation < k) :
    Decoded content budget s r := by
  obtain ⟨items, t, hops⟩ := exists_operations content.length (contentSpace content)
  have hrising := hops.rising (contentSpace_suffix content).length_le
  have hmem := hops.mem_itemsFrom hreach h
  rw [decide_eq_false hsmall] at hmem
  obtain ⟨p, hp, hstart, hreaches⟩ := covered_of_mem budget hrising (Nat.zero_le _)
    (Nat.le_refl _) hmem
  have hentry : pieceWindow content t p ∈ windows content budget := by
    rw [windows_eq_pieces content budget hops]
    exact mem_map_of_mem hp
  refine ⟨_, hentry, ?_⟩
  obtain ⟨start, piece⟩ := p
  cases piece with
  | cut stop => exact ⟨rfl, hstart, hreaches⟩
  | alone stop => exact absurd hreaches id
  | last =>
    have hstop := hops.stop_le (mem_of_mem_itemsFrom hmem)
    have hlast := (lastWindow_stop content t).1
    refine ⟨?_, hstart, Nat.le_trans hstop hlast⟩
    simp only [pieceWindow, lastWindow]
    split <;> rfl

end

/-- Exactly the operations that declare more objects than are accepted are left undecoded, if and
only if none of them is miscounted. -/
theorem oversize_exact_iff (hreach : Relation.ReflTransGen OperationStep (contentSpace content) s)
    (hstep : OperationStep s r) :
    ((ReportedOversize content budget r ↔ maxOperandsPerOperation < declared s) ∧
        (declared s ≤ maxOperandsPerOperation → Decoded content budget s r)) ↔
      ¬ Miscounted s := by
  have hread : operation s 0 = (some r, (operation s 0).2) := Prod.ext hstep rfl
  rw [reportedOversize_iff hreach hread, ← count_exact_iff hread]
  constructor
  · exact fun h => h.1
  · intro hexact
    refine ⟨hexact, fun hle => decoded_of_not_reported hreach hread ?_⟩
    rw [hexact]
    omega

theorem oversize_exact_iff_width :
    ((ReportedOversize (ascii "1 w") 64 [] ↔ maxOperandsPerOperation < declared (ascii "1 w")) ∧
        (declared (ascii "1 w") ≤ maxOperandsPerOperation →
          Decoded (ascii "1 w") 64 (ascii "1 w") [])) ↔ ¬ Miscounted (ascii "1 w") := by
  have hstep : OperationStep (ascii "1 w") [] := by
    unfold OperationStep
    decide +kernel
  have hreach : Relation.ReflTransGen OperationStep (contentSpace (ascii "1 w")) (ascii "1 w") :=
    .refl
  exact oversize_exact_iff hreach hstep

end

/-! ## §5 An operation at the limit -/

/-- An operation with as many operands. -/
def operationOfOnes : ℕ → Bytes
  | 0 => ascii "w"
  | n + 1 => 49 :: 32 :: operationOfOnes n

lemma contentSpace_operationOfOnes (n : ℕ) :
    contentSpace (operationOfOnes n) = operationOfOnes n := by
  cases n <;> rfl

lemma comments_operationOfOnes (n : ℕ) : comments (operationOfOnes n) = operationOfOnes n := by
  refine many_of_none ?_
  cases n <;> rfl

lemma readImage_operationOfOnes (n : ℕ) : readImage (operationOfOnes n) = ([], none) := by
  cases n <;> rfl

lemma readObject_one (s : Bytes) :
    readObject maxNestingDepth false (49 :: 32 :: s) = (.scalar, some (32 :: s)) := by
  have hnumber : number (49 :: 32 :: s) = some (32 :: s) := by
    have hsign : sign (49 :: 32 :: s) = 49 :: 32 :: s := rfl
    have hdigits : (49 :: 32 :: s).dropWhile isDigit = 32 :: s := rfl
    have hpoint : tag "." (32 :: s) = none := rfl
    simp [number, hsign, hdigits, hpoint]
  have hatoms : Scanner.firstOf (atoms false) (49 :: 32 :: s) = some (32 :: s) := by
    have hnull : tag "null" (49 :: 32 :: s) = none := rfl
    have htrue : tag "true" (49 :: 32 :: s) = none := rfl
    have hfalse : tag "false" (49 :: 32 :: s) = none := rfl
    simp [Scanner.firstOf, atoms, hnull, htrue, hfalse, hnumber]
  show readObjectWith _ false (49 :: 32 :: s) = _
  unfold readObjectWith
  simp only [hatoms]

lemma readOperands_operationOfOnes (n : ℕ) :
    readOperands (operationOfOnes n) = (replicate n .scalar, ascii "w") := by
  have hfrom : ∀ n found, run (·.1.length) readOperandRound (operationOfOnes n, found) =
      (found ++ replicate n .scalar, ascii "w") := by
    intro n
    induction n with
    | zero =>
      intro found
      rw [replicate_zero, append_nil]
      exact run_done rfl
    | succ n ih =>
      intro found
      have hround : readOperandRound (operationOfOnes (n + 1), found) =
          .again (operationOfOnes n, found ++ [.scalar]) := by
        simp only [readOperandRound, operationOfOnes, readObject_one]
        rw [show contentSpace (32 :: operationOfOnes n) = contentSpace (operationOfOnes n) from rfl,
          contentSpace_operationOfOnes]
      rw [run_again readOperandRound_lowers hround, ih, replicate_succ, append_assoc]
      rfl
  exact hfrom n []

lemma declared_operationOfOnes (n : ℕ) : declared (operationOfOnes n) = n := by
  have hcount : countAll (replicate n .scalar) = n := by
    induction n with
    | zero => rfl
    | succ n ih =>
      simp only [replicate_succ, countAll, DirectObject.count, ih]
      omega
  rw [declared, operandObjects, comments_operationOfOnes, readImage_operationOfOnes]
  simp only [readOperands_operationOfOnes, hcount]

lemma operation_operationOfOnes (n : ℕ) : operation (operationOfOnes n) 0 = (some [], n + 1) := by
  have hstep : (operation (operationOfOnes n) 0).1 = some [] := by
    rw [operation, comments_operationOfOnes, Counting.orElse, inlineImage_eq_read,
      readImage_operationOfOnes]
    simp only [plainOperation, operands_eq_read, readOperands_operationOfOnes]
    rfl
  have hread : operation (operationOfOnes n) 0 = (some [], (operation (operationOfOnes n) 0).2) :=
    Prod.ext hstep rfl
  have hcount := operation_count hread
  rw [comments_operationOfOnes, readImage_operationOfOnes, declared_operationOfOnes] at hcount
  have hsnd : (operation (operationOfOnes n) 0).2 = n + 1 := by
    simpa [countAll] using hcount
  rw [hread, hsnd]

/-- An operation with exactly as many objects as are accepted is left undecoded. -/
theorem oversize_at_limit :
    declared (operationOfOnes maxOperandsPerOperation) = maxOperandsPerOperation ∧
      ReportedOversize (operationOfOnes maxOperandsPerOperation) maxContentWindowBytes [] ∧
      ¬ (ReportedOversize (operationOfOnes maxOperandsPerOperation) maxContentWindowBytes [] ↔
        maxOperandsPerOperation < declared (operationOfOnes maxOperandsPerOperation)) := by
  have hdeclared := declared_operationOfOnes maxOperandsPerOperation
  have hreach : Relation.ReflTransGen OperationStep
      (contentSpace (operationOfOnes maxOperandsPerOperation))
      (operationOfOnes maxOperandsPerOperation) := by
    rw [contentSpace_operationOfOnes]
  have hreported : ReportedOversize (operationOfOnes maxOperandsPerOperation)
      maxContentWindowBytes [] :=
    (reportedOversize_iff hreach (operation_operationOfOnes _)).mpr (Nat.lt_succ_self _)
  refine ⟨hdeclared, hreported, fun hexact => ?_⟩
  have hlt := hexact.mp hreported
  rw [hdeclared] at hlt
  exact Nat.lt_irrefl _ hlt

end Kwiry.Pdf.Split
