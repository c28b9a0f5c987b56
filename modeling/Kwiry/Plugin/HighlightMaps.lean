import Mathlib.Algebra.Order.BigOperators.Group.List
import Kwiry.Plugin.Highlights

/-!
# Folded Text and Its Map

The map of a folded text has an entry for each folded code point, while a match is found by code
units. A code point outside the basic plane has two units, so every place behind it is looked up too
late.
-/

namespace Kwiry.Plugin.Highlights

open Foundations List Option

variable (T : ScriptTables)

/-! ## §1 Folds -/

/-- Canonical decomposition without marks, in lower case, of each character. -/
def foldCharacters (value : List JsString) : JsString := value.flatMap (foldText T)

def folds (value : JsString) : JsString := foldCharacters T (characters value)

lemma foldCharacters_append (front back : List JsString) :
    foldCharacters T (front ++ back) = foldCharacters T front ++ foldCharacters T back :=
  flatMap_append

variable {index n place : ℕ}

lemma codePointOf_ascii (hn : n < 128) : codePointOf [n.toUInt16] = .scalar (Char.ofNat n) := by
  have htable : ∀ m < 128, codePointOf [m.toUInt16] = .scalar (Char.ofNat m) := by decide
  exact htable n hn

lemma units_toLower_ascii (hn : n < 128) :
    (CodePoint.scalar (Char.ofNat n).toLower).units = [asciiLowerCase n.toUInt16] := by
  have htable : ∀ m < 128,
      (CodePoint.scalar (Char.ofNat m).toLower).units = [asciiLowerCase m.toUInt16] := by decide
  exact htable n hn

lemma foldText_ascii {unit : UInt16} (h : unit < 0x80) :
    foldText T [unit] = [asciiLowerCase unit] := by
  obtain ⟨n, hn, rfl⟩ : ∃ n : ℕ, n < 128 ∧ n.toUInt16 = unit := ⟨unit.toNat, h, by simp⟩
  have hvalid : (Char.ofNat n).toNat = n := by
    have htable : ∀ m < 128, (Char.ofNat m).toNat = m := by decide
    exact htable n hn
  obtain ⟨hdecompose, hmark, hlower⟩ := T.ascii (Char.ofNat n) (by rw [hvalid]; exact hn)
  have hsigma : Char.ofNat n ≠ 'Σ' := by
    intro heq
    have hnat := congrArg Char.toNat heq
    rw [hvalid] at hnat
    rw [hnat] at hn
    revert hn
    decide
  have hpoints : withoutMarks T (codePoints [n.toUInt16]) = [.scalar (Char.ofNat n)] := by
    simp only [codePoints, characters, map_cons, map_nil, codePointOf_ascii hn,
      withoutMarks, flatMap_cons, flatMap_nil, decompose, hdecompose,
      append_nil]
    simp [CodePoint.is, hmark]
  rw [foldText, hpoints, toLowerCase, toLowerCase, toLowerCasePoint, if_neg fun h => hsigma h.1,
    hlower]
  simp [unitsOf, units_toLower_ascii hn]

lemma flatten_foldCharacter (character : JsString) :
    (foldCharacter T character).flatten = foldText T character := by
  unfold foldCharacter
  split
  · next unit =>
    split
    · next hascii => exact (foldText_ascii T hascii).symm
    · exact flatten_characters _
  · exact flatten_characters _

lemma ne_nil_of_mem_foldCharacter {character piece : JsString}
    (h : piece ∈ foldCharacter T character) : piece ≠ [] := by
  unfold foldCharacter at h
  split at h
  · split at h
    · cases mem_singleton.mp h
      exact cons_ne_nil _ _
    · exact ne_nil_of_mem_characters h
  · exact ne_nil_of_mem_characters h

/-! ## §2 Maps -/

lemma foldFrom_append (index : ℕ) (front back : List JsString) :
    foldFrom T index (front ++ back) =
      foldFrom T index front ++ foldFrom T (index + front.flatten.length) back := by
  induction front generalizing index with
  | nil => simp [foldFrom]
  | cons character front ih =>
    rw [cons_append, foldFrom, foldFrom, ih, append_assoc, flatten_cons,
      length_append, Nat.add_assoc]

lemma folded_foldFrom (index : ℕ) (value : List JsString) :
    (foldFrom T index value).flatMap Prod.fst = foldCharacters T value := by
  induction value generalizing index with
  | nil => rfl
  | cons character value ih =>
    have hfirst : ((foldCharacter T character).map (·, index)).flatMap Prod.fst =
        foldText T character := by
      rw [flatMap_map, flatMap_id', flatten_foldCharacter]
    rw [foldFrom, flatMap_append, ih, hfirst]
    rfl

lemma folded_foldWithMap (value : JsString) : (foldWithMap T value).folded = folds T value :=
  folded_foldFrom T 0 _

/-- The entries of a map rise. -/
theorem foldFrom_rising (index : ℕ) (value : List JsString) :
    ((foldFrom T index value).map Prod.snd).Pairwise (· ≤ ·) ∧
      ∀ entry ∈ (foldFrom T index value).map Prod.snd,
        index ≤ entry ∧ entry ≤ index + value.flatten.length := by
  induction value generalizing index with
  | nil => simp [foldFrom]
  | cons character value ih =>
    obtain ⟨hrising, hbounds⟩ := ih (index + character.length)
    have hconst : ((foldCharacter T character).map (·, index)).map Prod.snd =
        replicate (foldCharacter T character).length index := by
      rw [List.map_map]
      exact map_const'
    rw [foldFrom, map_append, hconst, flatten_cons, length_append]
    constructor
    · rw [pairwise_append]
      refine ⟨pairwise_replicate.mpr (.inr (Nat.le_refl _)), hrising, ?_⟩
      intro entry hentry other hother
      rw [eq_of_mem_replicate hentry]
      have hbound := (hbounds other hother).1
      omega
    · intro entry hentry
      rcases mem_append.mp hentry with hfirst | hrest
      · rw [eq_of_mem_replicate hfirst]
        omega
      · have hbound := hbounds entry hrest
        omega

/-- What stands at a place of a map is not after what stands at a later one. -/
theorem getD_mono {map : List ℕ} {length i j : ℕ} (hrising : map.Pairwise (· ≤ ·))
    (hbounds : ∀ entry ∈ map, entry ≤ length) (hij : i ≤ j) :
    map[i]?.getD length ≤ map[j]?.getD length := by
  rcases hij.eq_or_lt with rfl | hlt
  · exact Nat.le_refl _
  by_cases hj : j < map.length
  · have hi : i < map.length := hlt.trans hj
    rw [getElem?_eq_getElem hi, getElem?_eq_getElem hj]
    exact pairwise_iff_getElem.mp hrising i j hi hj hlt
  · rw [getElem?_eq_none (Nat.le_of_not_lt hj)]
    by_cases hi : i < map.length
    · rw [getElem?_eq_getElem hi]
      exact hbounds _ (getElem_mem hi)
    · rw [getElem?_eq_none (Nat.le_of_not_lt hi)]

lemma mem_foldFrom {value : List JsString} {piece : JsString × ℕ}
    (h : piece ∈ foldFrom T index value) :
    ∃ character ∈ value, piece.1 ∈ foldCharacter T character := by
  induction value generalizing index with
  | nil => cases h
  | cons character value ih =>
    rcases mem_append.mp h with hfirst | hrest
    · obtain ⟨text, htext, rfl⟩ := mem_map.mp hfirst
      exact ⟨character, mem_cons_self, htext⟩
    · obtain ⟨other, hother, hpiece⟩ := ih hrest
      exact ⟨other, mem_cons_of_mem _ hother, hpiece⟩

lemma length_map_le (index : ℕ) (value : List JsString) :
    (foldFrom T index value).length ≤ (foldCharacters T value).length := by
  have hne : ∀ piece ∈ foldFrom T index value, 1 ≤ piece.1.length := fun piece hpiece => by
    obtain ⟨character, -, htext⟩ := mem_foldFrom T hpiece
    exact length_pos_iff.mpr (ne_nil_of_mem_foldCharacter T htext)
  rw [← folded_foldFrom T index, length_flatMap]
  have hsum := card_nsmul_le_sum ((foldFrom T index value).map fun piece => piece.1.length) 1
    fun length hlength => by
      obtain ⟨piece, hpiece, rfl⟩ := mem_map.mp hlength
      exact hne piece hpiece
  simpa using hsum

/-- An entry is where its character begins. -/
theorem getElem?_map {value : List JsString} (h : place < (foldFrom T index value).length) :
    ∃ front next back, value = front ++ next :: back ∧
      ((foldFrom T index value).map Prod.snd)[place]? = some (index + front.flatten.length) ∧
      (foldFrom T index front).length ≤ place ∧
      place < (foldFrom T index front).length + (foldCharacter T next).length := by
  induction value generalizing index place with
  | nil => cases h
  | cons character value ih =>
    rw [foldFrom, length_append, length_map] at h
    by_cases hfirst : place < (foldCharacter T character).length
    · refine ⟨[], character, value, rfl, ?_, Nat.zero_le _, by simpa [foldFrom] using hfirst⟩
      rw [foldFrom, map_append, getElem?_append_left (by simpa using hfirst),
        List.map_map, List.getElem?_map, getElem?_eq_getElem hfirst]
      rfl
    · obtain ⟨front, next, back, hsplit, hentry, hfrom, hto⟩ :=
        @ih (index + character.length) (place - (foldCharacter T character).length) (by omega)
      refine ⟨character :: front, next, back, by rw [hsplit]; rfl, ?_, ?_, ?_⟩
      · have hle : (((foldCharacter T character).map (·, index)).map Prod.snd).length ≤ place := by
          simpa using Nat.le_of_not_lt hfirst
        rw [foldFrom, map_append, getElem?_append_right hle]
        simpa [Nat.add_assoc] using hentry
      · rw [foldFrom, length_append, length_map]
        omega
      · rw [foldFrom, length_append, length_map]
        omega

/-! ## §3 Boundaries -/

/-- How many characters outside the basic plane there are in a fold: each has a unit more than it
has entries. -/
def surplus (value : List JsString) : ℕ :=
  (foldCharacters T value).length - (foldFrom T 0 value).length

/-- A place between two characters that the map shows where it is: before it there are fewer
characters outside the basic plane than the next character folds to. -/
def Boundary (value : JsString) (place : ℕ) : Prop :=
  ∃ front next back, characters value = front ++ next :: back ∧
    (foldCharacters T front).length = place ∧ surplus T front < (foldCharacter T next).length

/-- Where a match may end: at a boundary, or with the text. -/
def EndBoundary (value : JsString) (place : ℕ) : Prop :=
  place = (folds T value).length ∨ Boundary T value place

variable {value : JsString} {front : List JsString}

/-- The entry at a boundary is where the next character begins. -/
theorem map_boundary (h : Boundary T value place) :
    ∃ front back, characters value = front ++ back ∧
      (foldWithMap T value).map[place]? = some front.flatten.length ∧
      foldCharacters T front = (folds T value).take place := by
  obtain ⟨front, next, back, hsplit, hlength, hsurplus⟩ := h
  have hentries := length_map_le T 0 front
  have hplace : (foldFrom T 0 front).length ≤ place := hlength ▸ hentries
  rw [surplus, hlength] at hsurplus
  refine ⟨front, next :: back, hsplit, ?_, ?_⟩
  · have hmap : (foldWithMap T value).map = (foldFrom T 0 front).map Prod.snd ++
        ((foldFrom T (0 + front.flatten.length) (next :: back)).map Prod.snd) := by
      rw [← map_append, ← foldFrom_append, ← hsplit]
      rfl
    have hnext : place - (foldFrom T 0 front).length < (foldCharacter T next).length := hsurplus
    rw [hmap, getElem?_append_right (by simpa using hplace), length_map, foldFrom,
      map_append, getElem?_append_left (by simpa using hnext), List.map_map,
      List.getElem?_map, getElem?_eq_getElem hnext, Nat.zero_add]
    rfl
  · rw [folds, hsplit, foldCharacters_append, ← hlength, take_left]

lemma eq_nil_of_flatten {rest : List JsString}
    (hmem : ∀ character ∈ rest, character ∈ characters value) (h : rest.flatten.length = 0) :
    rest = [] := by
  cases rest with
  | nil => rfl
  | cons character rest =>
    have hne := ne_nil_of_mem_characters (hmem character mem_cons_self)
    rw [flatten_cons, length_append] at h
    exact absurd (length_eq_zero_iff.mp (by omega)) hne

variable {back back' front' : List JsString}

/-- Beginnings of a text that are equally long are equal. -/
theorem eq_of_flatten_length (h : characters value = front ++ back)
    (h' : characters value = front' ++ back')
    (hlength : front.flatten.length = front'.flatten.length) : front = front' := by
  rcases append_eq_append_iff.mp (h.symm.trans h') with ⟨rest, hrest, -⟩ | ⟨rest, hrest, -⟩
  · rw [hrest, flatten_append, length_append] at hlength
    have hnone := @eq_nil_of_flatten value rest
      (fun character hcharacter => by simp [h', hrest, hcharacter]) (by omega)
    rw [hrest, hnone, append_nil]
  · rw [hrest, flatten_append, length_append] at hlength
    have hnone := @eq_nil_of_flatten value rest
      (fun character hcharacter => by simp [h, hrest, hcharacter]) (by omega)
    rw [hrest, hnone, append_nil]

/-- Where the entry is where the next character begins, there is a boundary. -/
theorem boundary_of_map (hsplit : characters value = front ++ back)
    (hentry : (foldWithMap T value).map[(foldCharacters T front).length]? =
      some front.flatten.length) : Boundary T value (foldCharacters T front).length := by
  have hlt : (foldCharacters T front).length < (foldFrom T 0 (characters value)).length := by
    obtain ⟨hlt, -⟩ := List.getElem?_eq_some_iff.mp hentry
    simpa [foldWithMap] using hlt
  obtain ⟨front', next, back', hsplit', hentry', hfrom, hto⟩ := getElem?_map T hlt
  have hsame : front.flatten.length = front'.flatten.length := by
    rw [Nat.zero_add] at hentry'
    exact some.inj (hentry.symm.trans hentry')
  obtain rfl := eq_of_flatten_length hsplit hsplit' hsame
  refine ⟨front, next, back', hsplit', rfl, ?_⟩
  rw [surplus]
  omega

/-! ## §4 Marks -/

/-- The piece of a text that is marked for a match. -/
def markOf (value : JsString) (found : Span) : Span :=
  ⟨(foldWithMap T value).map[found.start]?.getD value.length,
    sourceEnd (foldWithMap T value).map found.stop value.length⟩

/-- The piece that is marked is made of the characters that fold to the match. -/
def MarksExactly (value : JsString) (found : Span) : Prop :=
  ∃ front middle back, characters value = front ++ middle ++ back ∧
    foldCharacters T front = (folds T value).take found.start ∧
    foldCharacters T middle = slice (folds T value) found.start found.stop ∧
    markOf T value found = ⟨front.flatten.length, (front ++ middle).flatten.length⟩

lemma map_endBoundary (h : EndBoundary T value place) :
    ∃ front back, characters value = front ++ back ∧
      sourceEnd (foldWithMap T value).map place value.length = front.flatten.length ∧
      foldCharacters T front = (folds T value).take place := by
  rcases h with rfl | hboundary
  · refine ⟨characters value, [], (append_nil _).symm, ?_, ?_⟩
    · have hnone : (foldWithMap T value).map.length ≤ (folds T value).length := by
        rw [foldWithMap, length_map]
        exact length_map_le T 0 _
      rw [sourceEnd, getElem?_eq_none hnone, getD_none, flatten_characters]
    · rw [take_length, folds]
  · obtain ⟨front, back, hsplit, hentry, hfolds⟩ := map_boundary T hboundary
    refine ⟨front, back, hsplit, ?_, hfolds⟩
    rw [sourceEnd, hentry, getD_some]

/-- Of two beginnings of a text the one with the longer fold is the longer. -/
theorem exists_middle (h : characters value = front ++ back)
    (h' : characters value = front' ++ back')
    (hlt : (foldCharacters T front).length < (foldCharacters T front').length) :
    ∃ middle, front' = front ++ middle ∧ characters value = front ++ middle ++ back' := by
  rcases append_eq_append_iff.mp (h.symm.trans h') with ⟨middle, hmiddle, -⟩ | ⟨rest, hrest, -⟩
  · exact ⟨middle, hmiddle, by rw [h', hmiddle]⟩
  · rw [hrest, foldCharacters_append, length_append] at hlt
    omega

lemma length_folds_take (h : foldCharacters T front = (folds T value).take place)
    (hplace : place ≤ (folds T value).length) : (foldCharacters T front).length = place := by
  rw [h, length_take_of_le hplace]

/-- A match is marked on exactly its characters where it lies between boundaries. -/
theorem marksExactly_iff {found : Span} (hlt : found.start < found.stop)
    (hle : found.stop ≤ (folds T value).length) :
    MarksExactly T value found ↔
      Boundary T value found.start ∧ EndBoundary T value found.stop := by
  constructor
  · rintro ⟨front, middle, back, hsplit, hfront, hmiddle, hmark⟩
    have hstart := length_folds_take T hfront (hlt.le.trans hle)
    have hlength : (foldCharacters T middle).length = found.stop - found.start := by
      rw [hmiddle, slice, length_drop, length_take_of_le hle]
    have hflatten : value = front.flatten ++ (middle.flatten ++ back.flatten) := by
      rw [← flatten_characters value, hsplit, flatten_append, flatten_append, append_assoc]
    obtain ⟨hfirst, hlast⟩ := Span.mk.inj hmark
    constructor
    · have hmem : (foldWithMap T value).map[found.start]? = some front.flatten.length := by
        cases hentry : (foldWithMap T value).map[found.start]? with
        | some entry => rw [← hfirst, hentry, getD_some]
        | none =>
          -- the mark would begin at the end of the text
          rw [hentry, getD_none] at hfirst
          have hlengths := congrArg length hflatten
          rw [length_append, length_append] at hlengths
          have hnone := @eq_nil_of_flatten value middle
            (fun character hcharacter => by simp [hsplit, hcharacter]) (by omega)
          rw [hnone] at hlength
          simp only [foldCharacters, flatMap_nil, length_nil] at hlength
          omega
      rw [append_assoc] at hsplit
      rw [← hstart] at hmem ⊢
      exact boundary_of_map T hsplit hmem
    · have hstop : (foldCharacters T (front ++ middle)).length = found.stop := by
        rw [foldCharacters_append, length_append, hstart, hlength]
        omega
      rw [sourceEnd] at hlast
      cases hentry : (foldWithMap T value).map[found.stop]? with
      | some entry =>
        rw [hentry, getD_some] at hlast
        rw [hlast] at hentry
        apply Or.inr
        rw [← hstop] at hentry ⊢
        exact boundary_of_map T hsplit hentry
      | none =>
        rw [hentry, getD_none, flatten_append, length_append] at hlast
        have hlengths := congrArg length hflatten
        rw [length_append, length_append] at hlengths
        have hnone := @eq_nil_of_flatten value back
          (fun character hcharacter => by simp [hsplit, hcharacter]) (by omega)
        apply Or.inl
        rw [folds, hsplit, hnone, append_nil, hstop]
  · rintro ⟨hstart, hstop⟩
    obtain ⟨front, rest, hfront, hentry, hbefore⟩ := map_boundary T hstart
    obtain ⟨front', back, hfront', hend, hthrough⟩ := map_endBoundary T hstop
    have hlength : (foldCharacters T front).length < (foldCharacters T front').length := by
      rw [length_folds_take T hbefore (hlt.le.trans hle), length_folds_take T hthrough hle]
      exact hlt
    obtain ⟨middle, rfl, hsplit⟩ := exists_middle T hfront hfront' hlength
    refine ⟨front, middle, back, hsplit, hbefore, ?_, ?_⟩
    · rw [slice, ← hthrough, foldCharacters_append,
        ← length_folds_take T hbefore (hlt.le.trans hle), drop_left]
    · rw [markOf, hentry, hend]
      rfl

/-- What is marked exactly folds to the match. -/
theorem folds_mark {found : Span} (h : MarksExactly T value found) :
    folds T (slice value (markOf T value found).start (markOf T value found).stop) =
      slice (folds T value) found.start found.stop := by
  obtain ⟨front, middle, back, hsplit, -, hmiddle, hmark⟩ := h
  have hvalue : value = front.flatten ++ middle.flatten ++ back.flatten := by
    rw [← flatten_characters value, hsplit, flatten_append, flatten_append]
  have hslice : slice value front.flatten.length (front ++ middle).flatten.length =
      middle.flatten := by
    rw [slice, hvalue, flatten_append, take_left, drop_left]
  rw [hmark, hslice, folds, characters_infix hsplit, hmiddle]

end Kwiry.Plugin.Highlights
