import Kwiry.Plugin.ExplicitQuery

/-!
# Explicit Queries as FTS5 Expressions

FTS5 cuts a match value into tokens and reads them by its own grammar, in which `NOT` binds tighter
than `AND` and `AND` tighter than `OR`. What the adapter prints is read there as the formula that
was authored: each operation stands in parentheses, so precedence does not matter, and each word or
phrase is one quoted string.
-/

namespace Kwiry

open Foundations List

/-! ## §1 The tokens of FTS5 -/

/-- A string is quoted or a bareword. -/
inductive Fts5Token where
  | string (text : Text) (isQuoted : Bool)
  | and | or | not
  | leftParen | rightParen | colon | star
  | punctuation (c : Char)
  deriving DecidableEq

def isFts5Space (c : Char) : Bool :=
  c ∈ [' ', '\t', '\n', '\r']

/-- The characters of barewords: ASCII letters and digits, the underscore, the substitute character,
and everything outside ASCII. -/
def isBareword (c : Char) : Bool :=
  c.isAlphanum || c == '_' || c == '\x1a' || 128 ≤ c.toNat

/-- A string up to its closing quote, which no quote follows, and what comes after it. -/
def readFts5String : Text → Option (Text × Text)
  | [] => none
  | '"' :: '"' :: rest => (readFts5String rest).map fun (text, rest) => ('"' :: text, rest)
  | '"' :: rest => some ([], rest)
  | c :: rest =>
    if c = '\x00' then none
    else (readFts5String rest).map fun (text, rest) => (c :: text, rest)

variable {column rest text : Text}

lemma length_readFts5String {source : Text} (h : readFts5String source = some (text, rest)) :
    rest.length < source.length := by
  fun_induction readFts5String source generalizing text rest with
  | case1 => cases h
  | case2 after ih =>
    obtain ⟨⟨inner, last⟩, hread, heq⟩ := Option.map_eq_some_iff.mp h
    cases heq
    have := ih hread
    simp only [length_cons]
    omega
  | case3 after _ =>
    cases h
    exact Nat.lt_succ_self _
  | case4 => cases h
  | case5 c after _ _ hnul ih =>
    obtain ⟨⟨inner, last⟩, hread, heq⟩ := Option.map_eq_some_iff.mp h
    cases heq
    exact Nat.lt_succ_of_lt (ih hread)

/-- The token of a bareword. -/
def barewordToken (word : Text) : Fts5Token :=
  if word = "OR".toList then .or
  else if word = "NOT".toList then .not
  else if word = "AND".toList then .and
  else .string word false

/-- The tokens of an expression, which ends at a null character. -/
def lexFts5 : Text → Option (List Fts5Token)
  | [] => some []
  | c :: rest =>
    if c = '\x00' then some []
    else if isFts5Space c then lexFts5 rest
    else if c = '(' then (lexFts5 rest).map (.leftParen :: ·)
    else if c = ')' then (lexFts5 rest).map (.rightParen :: ·)
    else if c = ':' then (lexFts5 rest).map (.colon :: ·)
    else if c = '*' then (lexFts5 rest).map (.star :: ·)
    else if c ∈ ['{', '}', ',', '+', '-', '^'] then (lexFts5 rest).map (.punctuation c :: ·)
    else if c = '"' then
      match _h : readFts5String rest with
      | none => none
      | some (text, after) => (lexFts5 after).map (.string text true :: ·)
    else if isBareword c then
      (lexFts5 (rest.dropWhile isBareword)).map
        (barewordToken (c :: rest.takeWhile isBareword) :: ·)
    else none
termination_by source => source.length
decreasing_by
  all_goals simp only [length_cons]
  all_goals try omega
  · have := length_readFts5String ‹_›
    omega
  · have := length_dropWhile_le isBareword rest
    omega

/-! ## §2 The grammar of FTS5 -/

/-- `NOT` binds tighter than `AND`, and `AND` tighter than `OR`. -/
def fts5Precedence : ExplicitOp → ℕ
  | .or => 0
  | .and => 1
  | .not => 2

def ExplicitOp.fts5Token : ExplicitOp → Fts5Token
  | .and => .and
  | .or => .or
  | .not => .not

/-- A string, and a star after it if it is the beginning of words. -/
inductive Fts5Value : List Fts5Token → Text × Bool → Prop
  | phrase (text : Text) (isQuoted : Bool) : Fts5Value [.string text isQuoted] (text, false)
  | star (text : Text) (isQuoted : Bool) : Fts5Value [.string text isQuoted, .star] (text, true)

/-- A string in all columns, or in one. -/
inductive Fts5Operand : List Fts5Token → Fts5Phrase → Prop
  | value {ts : List Fts5Token} {value : Text × Bool} (h : Fts5Value ts value) :
      Fts5Operand ts ⟨none, value.1, value.2⟩
  | filtered (column : Text) (isQuoted : Bool) {ts : List Fts5Token} {value : Text × Bool}
      (h : Fts5Value ts value) :
      Fts5Operand (.string column isQuoted :: .colon :: ts) ⟨some column, value.1, value.2⟩

def fts5Grammar : OperatorGrammar Fts5Token ExplicitOp Fts5Phrase where
  precedence := fts5Precedence
  operator := ExplicitOp.fts5Token
  opening := .leftParen
  closing := .rightParen
  Operand := Fts5Operand

lemma fts5Boundary_ne {rest after : List Fts5Token} (h : fts5Grammar.Boundary rest) :
    rest ≠ .colon :: after ∧ rest ≠ .star :: after := by
  cases h with
  | done => simp
  | closing rest => simp [fts5Grammar]
  | operator o rest => cases o <;> simp [fts5Grammar, ExplicitOp.fts5Token]

lemma fts5Value_unique {ts us rest rest' : List Fts5Token} {v w : Text × Bool}
    (h : Fts5Value ts v) (h' : Fts5Value us w) (hb : fts5Grammar.Boundary rest)
    (hb' : fts5Grammar.Boundary rest') (heq : ts ++ rest = us ++ rest') : rest = rest' ∧ v = w := by
  cases h with
  | phrase text isQuoted =>
    cases h' with
    | phrase =>
      cases heq
      exact ⟨rfl, rfl⟩
    | star => exact absurd (cons.inj heq).2 (fts5Boundary_ne hb).2
  | star text isQuoted =>
    cases h' with
    | phrase => exact absurd (cons.inj heq).2.symm (fts5Boundary_ne hb').2
    | star =>
      cases heq
      exact ⟨rfl, rfl⟩

lemma fts5Value_head {ts rest : List Fts5Token} {v : Text × Bool} (h : Fts5Value ts v)
    (hb : fts5Grammar.Boundary rest) : ∃ text isQuoted after,
      ts ++ rest = .string text isQuoted :: after ∧ ∀ later, after ≠ .colon :: later := by
  cases h with
  | phrase text isQuoted => exact ⟨text, isQuoted, rest, rfl, fun _ => (fts5Boundary_ne hb).1⟩
  | star text isQuoted => exact ⟨text, isQuoted, .star :: rest, rfl, fun _ h => by cases h⟩

lemma fts5Grammar_lawful : fts5Grammar.Lawful where
  operator_injective o o' h := by
    cases o <;> cases o' <;> first | rfl | cases h
  operator_ne_closing o h := by cases o <;> cases h
  not_operand_opening ts a h := by
    generalize hts : fts5Grammar.opening :: ts = us at h
    cases h with
    | value h => cases h <;> cases hts
    | filtered => cases hts
  operand_ne_nil a h := by
    generalize hts : ([] : List Fts5Token) = us at h
    cases h with
    | value h => cases h <;> cases hts
    | filtered => cases hts
  operand_unique {ts us rest rest' a b} h h' hb hb' heq := by
    cases h with
    | value hv =>
      cases h' with
      | value hv' =>
        obtain ⟨rfl, rfl⟩ := fts5Value_unique hv hv' hb hb' heq
        exact ⟨rfl, rfl⟩
      | filtered =>
        obtain ⟨text, isQuoted, after, hhead, hcolon⟩ := fts5Value_head hv hb
        rw [hhead] at heq
        exact absurd (cons.inj heq).2 (hcolon _)
    | filtered column isQuoted hv =>
      cases h' with
      | value hv' =>
        obtain ⟨text, isQuoted, after, hhead, hcolon⟩ := fts5Value_head hv' hb'
        rw [hhead] at heq
        exact absurd (cons.inj heq).2.symm (hcolon _)
      | filtered column' isQuoted' hv' =>
        obtain ⟨hcolumn, hrest⟩ := cons.inj heq
        obtain ⟨rfl, rfl⟩ := fts5Value_unique hv hv' hb hb' (cons.inj hrest).2
        cases hcolumn
        exact ⟨rfl, rfl⟩

/-! ## §3 What is printed for a formula -/

/-- The tokens printed for a phrase. -/
def phraseTokens (a : Fts5Phrase) : List Fts5Token :=
  (match a.column with
    | none => []
    | some column => [.string column false, .colon]) ++
  .string a.text true :: if a.isPrefix then [.star] else []

/-- The tokens printed for a formula. -/
def printedTokens : Formula ExplicitOp Fts5Phrase → List Fts5Token
  | .atom a => phraseTokens a
  | .group inner => .leftParen :: printedTokens inner ++ [.rightParen]
  | .joined o left right =>
    .leftParen :: (printedTokens left ++ o.fts5Token :: printedTokens right) ++ [.rightParen]

/-- A phrase that can be printed: no null character ends it early, and its column is allowed. -/
structure Printable (a : Fts5Phrase) : Prop where
  text : '\x00' ∉ a.text
  column : ∀ column, a.column = some column → column ∈ fts5Columns

/-- A quoted text is read back, unless a quote follows it. -/
theorem readFts5String_quoted (hnul : '\x00' ∉ text) (hrest : rest.head? ≠ some '"') :
    readFts5String (text.flatMap (fun c => if c = '"' then ['"', '"'] else [c]) ++ '"' :: rest) =
      some (text, rest) := by
  induction text with
  | nil =>
    show readFts5String ('"' :: rest) = some ([], rest)
    rw [readFts5String]
    intro after heq
    rw [heq] at hrest
    exact hrest rfl
  | cons c text ih =>
    obtain ⟨hc, htext⟩ := not_or.mp (mem_cons.not.mp hnul)
    rw [flatMap_cons, append_assoc]
    by_cases hquote : c = '"'
    · subst hquote
      rw [if_pos rfl, cons_append, cons_append, nil_append, readFts5String, ih htext]
      rfl
    · rw [if_neg hquote, singleton_append, readFts5String, if_neg (Ne.symm hc), ih htext]
      · rfl
      · intro after heq _
        exact hquote heq
      · exact hquote

/-- A quoted phrase is one string token. -/
theorem lexFts5_quoted (hnul : '\x00' ∉ text) (hrest : rest.head? ≠ some '"') :
    lexFts5 (quoteFtsPhrase text ++ rest) = (lexFts5 rest).map (.string text true :: ·) := by
  unfold quoteFtsPhrase
  rw [append_assoc, cons_append, singleton_append, lexFts5]
  have hread := readFts5String_quoted hnul hrest
  rw [if_neg (by decide), if_neg (by decide), if_neg (by decide), if_neg (by decide),
    if_neg (by decide), if_neg (by decide), if_neg (by decide), if_pos rfl]
  split
  next hnone =>
    rw [hread] at hnone
    cases hnone
  next heq =>
    rw [hread] at heq
    cases heq
    rfl

/-- A bareword that a space follows is one token. -/
theorem lexFts5_bareword {c : Char} {word : Text} (hword : ∀ d ∈ c :: word, isBareword d = true) :
    lexFts5 (c :: word ++ ' ' :: rest) = (lexFts5 rest).map (barewordToken (c :: word) :: ·) := by
  have hc := hword c mem_cons_self
  have hrest : ∀ d ∈ word, isBareword d = true := fun d hd => hword d (mem_cons_of_mem _ hd)
  have hne : ∀ d, isBareword d = false → c ≠ d := fun d hd heq => by
    rw [heq, hd] at hc
    cases hc
  have hspace : isFts5Space c = false := by
    have h1 := hne ' ' (by decide)
    have h2 := hne '\t' (by decide)
    have h3 := hne '\n' (by decide)
    have h4 := hne '\r' (by decide)
    simp [isFts5Space, h1, h2, h3, h4]
  have hpunctuation : c ∉ ['{', '}', ',', '+', '-', '^'] := by
    have h1 := hne '{' (by decide)
    have h2 := hne '}' (by decide)
    have h3 := hne ',' (by decide)
    have h4 := hne '+' (by decide)
    have h5 := hne '-' (by decide)
    have h6 := hne '^' (by decide)
    simp [h1, h2, h3, h4, h5, h6]
  have htake : (word ++ ' ' :: rest).takeWhile isBareword = word := by
    rw [takeWhile_append_of_pos hrest]
    simp [isBareword]
  have hdrop : (word ++ ' ' :: rest).dropWhile isBareword = ' ' :: rest := by
    rw [dropWhile_append_of_pos hrest]
    simp [isBareword]
  rw [cons_append, lexFts5]
  rw [if_neg (hne '\x00' (by decide)), hspace, if_neg (hne '(' (by decide)),
    if_neg (hne ')' (by decide)), if_neg (hne ':' (by decide)), if_neg (hne '*' (by decide)),
    if_neg hpunctuation, if_neg (hne '"' (by decide)), if_pos hc, htake, hdrop]
  rw [lexFts5.eq_def (' ' :: rest)]
  simp [isFts5Space]

/-- Each allowed column is a bareword, and none is an operator. -/
theorem lexFts5_column (h : column ∈ fts5Columns) :
    lexFts5 (column ++ [' ', ':', ' '] ++ rest) =
      (lexFts5 rest).map fun tokens => .string column false :: .colon :: tokens := by
  have hword : (∀ d ∈ column, isBareword d = true) ∧ column ≠ [] ∧
      barewordToken column = .string column false := by
    revert column
    decide
  obtain ⟨hall, hne, htoken⟩ := hword
  cases column with
  | nil => exact absurd rfl hne
  | cons c word =>
    have hform : c :: word ++ [' ', ':', ' '] ++ rest =
        c :: word ++ ' ' :: (':' :: ' ' :: rest) := by
      simp
    rw [hform, lexFts5_bareword hall, htoken]
    have hcolon : lexFts5 (':' :: ' ' :: rest) = (lexFts5 rest).map (.colon :: ·) := by
      rw [lexFts5, lexFts5]
      simp [isFts5Space]
    rw [hcolon, Option.map_map]
    rfl

lemma lexFts5_phrase {a : Fts5Phrase} (ha : Printable a) (hrest : rest.head? ≠ some '"') :
    lexFts5 (a.render ++ rest) = (lexFts5 rest).map (phraseTokens a ++ ·) := by
  have hvalue : lexFts5 (quoted (a.text, a.isPrefix) ++ rest) =
      (lexFts5 rest).map (.string a.text true :: (if a.isPrefix then [.star] else []) ++ ·) := by
    unfold quoted
    cases a.isPrefix with
    | false => simpa using lexFts5_quoted ha.text hrest
    | true =>
      rw [if_pos rfl, append_assoc, lexFts5_quoted ha.text (by simp), singleton_append,
        lexFts5.eq_def]
      simp [isFts5Space]
      rfl
  unfold Fts5Phrase.render phraseTokens
  cases hcolumn : a.column with
  | none => simpa using hvalue
  | some column =>
    rw [append_assoc]
    show lexFts5 (column ++ [' ', ':', ' '] ++ (quoted (a.text, a.isPrefix) ++ rest)) = _
    rw [lexFts5_column (ha.column column hcolumn), hvalue, Option.map_map]
    rfl

lemma lexFts5_operator (o : ExplicitOp) (rest : Text) :
    lexFts5 (' ' :: o.text.toList ++ ' ' :: rest) = (lexFts5 rest).map (o.fts5Token :: ·) := by
  have hspace : lexFts5 (' ' :: o.text.toList ++ ' ' :: rest) =
      lexFts5 (o.text.toList ++ ' ' :: rest) := by
    rw [cons_append, lexFts5.eq_def]
    simp [isFts5Space]
  rw [hspace]
  cases o with
  | and =>
    show lexFts5 ('A' :: ['N', 'D'] ++ ' ' :: rest) = _
    exact lexFts5_bareword (by decide)
  | or =>
    show lexFts5 ('O' :: ['R'] ++ ' ' :: rest) = _
    exact lexFts5_bareword (by decide)
  | not =>
    show lexFts5 ('N' :: ['O', 'T'] ++ ' ' :: rest) = _
    exact lexFts5_bareword (by decide)

lemma lexFts5_leftParen (rest : Text) :
    lexFts5 ('(' :: rest) = (lexFts5 rest).map (.leftParen :: ·) := by
  rw [lexFts5]
  simp [isFts5Space]

lemma lexFts5_rightParen (rest : Text) :
    lexFts5 (')' :: rest) = (lexFts5 rest).map (.rightParen :: ·) := by
  rw [lexFts5]
  simp [isFts5Space]

variable {e : Formula ExplicitOp Fts5Phrase}

/-- A printed formula has the tokens of its phrases, operators and parentheses, whatever stands
after it. -/
theorem lexFts5_renderExplicit (he : ∀ a ∈ e.atoms, Printable a) (hrest : rest.head? ≠ some '"') :
    lexFts5 (renderExplicit e ++ rest) = (lexFts5 rest).map (printedTokens e ++ ·) := by
  induction e generalizing rest with
  | atom a => exact lexFts5_phrase (he a (mem_singleton_self a)) hrest
  | group inner ih =>
    have hclosing : (')' :: rest).head? ≠ some '"' := by simp
    unfold renderExplicit
    rw [append_assoc, append_assoc, singleton_append, singleton_append,
      lexFts5_leftParen, ih he hclosing, lexFts5_rightParen, Option.map_map, Option.map_map]
    congr 1
    funext tokens
    simp [printedTokens]
  | joined o left right ihl ihr =>
    have hclosing : (')' :: rest).head? ≠ some '"' := by simp
    have hleft : ∀ a ∈ left.atoms, Printable a := fun a ha => he a (mem_append_left _ ha)
    have hright : ∀ a ∈ right.atoms, Printable a := fun a ha => he a (mem_append_right _ ha)
    have hprint : renderExplicit (.joined o left right) ++ rest =
        '(' :: (renderExplicit left ++ (' ' :: o.text.toList ++ ' ' :: (renderExplicit right ++
          ')' :: rest))) := by
      simp [renderExplicit, printJoined]
    rw [hprint, lexFts5_leftParen, ihl hleft (by simp), lexFts5_operator, ihr hright hclosing,
      lexFts5_rightParen]
    simp only [Option.map_map]
    congr 1
    funext tokens
    simp [printedTokens]

/-! ## §4 How FTS5 reads it -/

/-- The formula of the printed tokens: each operation is a group. -/
def bracketed : Formula ExplicitOp Fts5Phrase → Formula ExplicitOp Fts5Phrase
  | .atom a => .atom a
  | .group inner => .group (bracketed inner)
  | .joined o left right => .group (.joined o (bracketed left) (bracketed right))

lemma tree_bracketed (e : Formula ExplicitOp Fts5Phrase) : (bracketed e).tree = e.tree := by
  induction e with
  | atom a => rfl
  | group inner ih => exact ih
  | joined o left right ihl ihr => simp [bracketed, Formula.tree, ihl, ihr]

lemma fts5Operand_phraseTokens (a : Fts5Phrase) : Fts5Operand (phraseTokens a) a := by
  have hvalue : Fts5Value (.string a.text true :: if a.isPrefix then [.star] else [])
      (a.text, a.isPrefix) := by
    cases a.isPrefix
    · exact .phrase a.text true
    · exact .star a.text true
  obtain ⟨column, text, isPrefix⟩ := a
  cases column with
  | none => exact .value hvalue
  | some column => exact .filtered column false hvalue

lemma derives_printedTokens (e : Formula ExplicitOp Fts5Phrase) (p : ℕ) :
    fts5Grammar.Derives p (printedTokens e) (bracketed e) := by
  induction e generalizing p with
  | atom a => exact .operand p (fts5Operand_phraseTokens a)
  | group inner ih => exact .group p (ih 0)
  | joined o left right ihl ihr =>
    exact .group p (.joined (G := fts5Grammar) (o := o) (Nat.zero_le _) (ihl _) (ihr _))

/-- The quoted strings among tokens. -/
def quotedTexts (tokens : List Fts5Token) : List Text :=
  tokens.filterMap fun
    | .string text true => some text
    | _ => none

/-- The strings that are not quoted. -/
def barewords (tokens : List Fts5Token) : List Text :=
  tokens.filterMap fun
    | .string text false => some text
    | _ => none

lemma quotedTexts_printedTokens (e : Formula ExplicitOp Fts5Phrase) :
    quotedTexts (printedTokens e) = e.atoms.map (·.text) := by
  induction e with
  | atom a =>
    obtain ⟨column, text, isPrefix⟩ := a
    cases column <;> cases isPrefix <;> rfl
  | group inner ih =>
    simp only [quotedTexts, printedTokens] at ih ⊢
    simpa [Formula.atoms] using ih
  | joined o left right ihl ihr =>
    simp only [quotedTexts, printedTokens] at ihl ihr ⊢
    cases o <;> simp [Formula.atoms, ihl, ihr, ExplicitOp.fts5Token]

lemma barewords_printedTokens (e : Formula ExplicitOp Fts5Phrase) :
    barewords (printedTokens e) = e.atoms.filterMap (·.column) := by
  induction e with
  | atom a =>
    obtain ⟨column, text, isPrefix⟩ := a
    cases column <;> cases isPrefix <;> rfl
  | group inner ih =>
    simp only [barewords, printedTokens] at ih ⊢
    simpa [Formula.atoms] using ih
  | joined o left right ihl ihr =>
    simp only [barewords, printedTokens] at ihl ihr ⊢
    cases o <;> simp [Formula.atoms, ihl, ihr, ExplicitOp.fts5Token]

/-! ## §5 Translated queries -/

variable {T : CharTables}

lemma mem_fts5Columns {field : Text} (h : fts5Field field = some column) :
    column ∈ fts5Columns := by
  unfold fts5Field at h
  repeat' split at h
  all_goals cases h
  all_goals decide

/-- What is looked for in place of a word has no null character either. -/
theorem printable_of_operand (hnul : T.isAlphanumeric '\x00' = false) {tokens : List ExplicitToken}
    {a : Fts5Phrase} (h : ExplicitOperand T tokens a)
    (htokens : ∀ token ∈ tokens, '\x00' ∉ token.value) : Printable a := by
  have hvalue : ∀ {token : ExplicitToken} {value : Text × Bool}, token ∈ tokens →
      explicitValue T token = some value → '\x00' ∉ value.1 := by
    intro token value hmem hvalue
    have htoken := htokens token hmem
    unfold explicitValue at hvalue
    split at hvalue
    · cases hvalue
      exact htoken
    · split at hvalue
      · cases hvalue
        exact htoken
      · split at hvalue
        · cases hvalue
        · split at hvalue
          · cases hvalue
          next stem _ =>
            obtain ⟨hstem, hsome⟩ := Option.ite_none_left_eq_some.mp hvalue
            cases hsome
            intro hmem
            have hall : stem.all (isTermChar T) = true := by
              by_contra hnot
              exact hstem (.inr (by simpa using hnot))
            have := all_eq_true.mp hall _ hmem
            simp [isTermChar, hnul] at this
    · cases hvalue
  cases h with
  | value h => exact ⟨hvalue (mem_singleton_self _) h, fun column heq => by cases heq⟩
  | filtered hfield h =>
    refine ⟨hvalue (by simp) h, fun column heq => ?_⟩
    cases heq
    exact mem_fts5Columns hfield

lemma printable_of_derives (hnul : T.isAlphanumeric '\x00' = false) {p : ℕ}
    {tokens : List ExplicitToken} (h : (explicitGrammar T).Derives p tokens e)
    (htokens : ∀ token ∈ tokens, '\x00' ∉ token.value) : ∀ a ∈ e.atoms, Printable a := by
  induction h with
  | operand p ha =>
    intro a hmem
    rw [mem_singleton.mp hmem]
    exact printable_of_operand hnul ha htokens
  | group p h ih =>
    exact ih fun token hmem => htokens token (by simp [hmem])
  | joined hp hl hr ihl ihr =>
    intro a hmem
    rcases mem_append.mp hmem with hmem | hmem
    · exact ihl (fun token ht => htokens token (by simp [ht])) a hmem
    · exact ihr (fun token ht => htokens token (by simp [ht])) a hmem

/-- An expression that FTS5 reads as a formula, and in one way. Its phrases are its quoted strings,
and its barewords the columns of its phrases. -/
structure ReadsAs (expression : Text) (e : Formula ExplicitOp Fts5Phrase) : Prop where
  reads : ∃ tokens, lexFts5 expression = some tokens ∧
    (∃ f, fts5Grammar.Derives 0 tokens f) ∧
    (∀ f, fts5Grammar.Derives 0 tokens f → f.tree = e.tree) ∧
    quotedTexts tokens = e.atoms.map (·.text) ∧ barewords tokens = e.atoms.filterMap (·.column)
  columns : ∀ a ∈ e.atoms, ∀ column, a.column = some column → column ∈ fts5Columns

lemma readsAs_renderExplicit (he : ∀ a ∈ e.atoms, Printable a) :
    ReadsAs (renderExplicit e) e := by
  refine ⟨⟨printedTokens e, ?_, ⟨bracketed e, derives_printedTokens e 0⟩, fun f hf => ?_,
    quotedTexts_printedTokens e, barewords_printedTokens e⟩, fun a ha => (he a ha).column⟩
  · have hlex : lexFts5 (renderExplicit e ++ []) = (lexFts5 []).map (printedTokens e ++ ·) :=
      lexFts5_renderExplicit he (by simp)
    rw [append_nil] at hlex
    rw [hlex, lexFts5]
    simp
  · rw [fts5Grammar_lawful.derives_unique hf (derives_printedTokens e 0), tree_bracketed]

/-- A query that is translated is read by FTS5 as the one formula that was authored, and whatever
the grammar of queries derives is translated as long as it fits. -/
theorem translateExplicitQuery_faithful (T : CharTables) (hnul : T.isAlphanumeric '\x00' = false) :
    (∀ query rendered, translateExplicitQuery T query = .ok rendered →
      ∃ tokens e, tokenizeExplicit query = some tokens ∧
        (explicitGrammar T).Derives 0 tokens e ∧
        (∀ e', (explicitGrammar T).Derives 0 tokens e' → e' = e) ∧
        rendered = renderExplicit e ∧ ReadsAs rendered e) ∧
    (∀ tokens e, (explicitGrammar T).Derives 0 tokens e →
      utf8Len (renderExplicit e) ≤ maxMatchValueBytes →
      (∀ query, tokenizeExplicit query = some tokens →
        translateExplicitQuery T query = .ok (renderExplicit e)) ∧
      ((∀ token ∈ tokens, Authorable token) →
        tokenizeExplicit (tokens.flatMap fun token => token.spell ++ [' ']) = some tokens)) := by
  constructor
  · intro query rendered h
    obtain ⟨tokens, e, htokens, he, hrendered, -⟩ := translateExplicitQuery_iff.mp h
    have hfree : ∀ token ∈ tokens, '\x00' ∉ token.value := by
      obtain ⟨cut, hcut, hsome⟩ := Option.bind_eq_some_iff.mp htokens
      obtain ⟨-, heq⟩ := Option.ite_none_left_eq_some.mp hsome
      obtain rfl := Option.some.inj heq
      exact nul_not_mem_explicitTokens hcut
    refine ⟨tokens, e, htokens, he, fun e' he' => explicitGrammar_lawful.derives_unique he' he,
      hrendered, ?_⟩
    rw [hrendered]
    exact readsAs_renderExplicit (printable_of_derives hnul he hfree)
  · intro tokens e he hfits
    refine ⟨fun query htokens => ?_, fun hauthorable => ?_⟩
    · exact translateExplicitQuery_iff.mpr ⟨tokens, e, htokens, he, rfl, hfits⟩
    have hne : tokens ≠ [] := by
      rintro rfl
      exact explicitGrammar_lawful.not_derives_nil he
    unfold tokenizeExplicit
    rw [explicitTokens_spelled hauthorable]
    simp [hne]

/-- The tokens of `title:"a b" OR c`. -/
def titleTokens : List ExplicitToken :=
  [.word "title".toList, .colon, .phrase "a b".toList, .or, .word "c".toList]

def titleFormula : Formula ExplicitOp Fts5Phrase :=
  .joined .or (.atom ⟨some "title".toList, "a b".toList, false⟩) (.atom ⟨none, "c".toList, false⟩)

theorem translateExplicitQuery_faithful_title :
    renderExplicit titleFormula = "(title : \"a b\" OR \"c\")".toList ∧
      ∃ query, tokenizeExplicit query = some titleTokens ∧
        translateExplicitQuery .latin query = .ok (renderExplicit titleFormula) ∧
        ∃ e, ReadsAs (renderExplicit titleFormula) e := by
  have hnul : CharTables.latin.isAlphanumeric '\x00' = false := by decide
  have hderives : (explicitGrammar .latin).Derives 0 titleTokens titleFormula := by
    have hfield : fts5Field "title".toList = some "title".toList := by decide
    have hphrase : explicitValue .latin (.phrase "a b".toList) = some ("a b".toList, false) := rfl
    have hword : explicitValue .latin (.word "c".toList) = some ("c".toList, false) := rfl
    exact .joined (G := explicitGrammar .latin) (o := ExplicitOp.or) (Nat.le_refl 0)
      (.operand 0 (.filtered hfield hphrase)) (.operand 1 (.value hword))
  have hauthorable : ∀ token ∈ titleTokens, Authorable token := by
    simp [titleTokens, Authorable]
    decide
  have hfits : utf8Len (renderExplicit titleFormula) ≤ maxMatchValueBytes := by decide
  obtain ⟨hfaithful, hconverse⟩ := translateExplicitQuery_faithful .latin hnul
  obtain ⟨htranslate, hspelled⟩ := hconverse titleTokens titleFormula hderives hfits
  have htokens := hspelled hauthorable
  have hok := htranslate _ htokens
  obtain ⟨-, e, -, -, -, -, hreads⟩ := hfaithful _ _ hok
  exact ⟨by decide, _, htokens, hok, e, hreads⟩

end Kwiry
