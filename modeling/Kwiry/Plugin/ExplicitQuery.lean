import Kwiry.Foundations.Operators
import Kwiry.Plugin.QueryAdapter

/-!
# Explicit Queries

`translate_explicit_query` of the plugin's WASM adapter: an authored query is cut into tokens and
parsed by recursive descent. The parser prints as it parses, each operation in parentheses and each
word or phrase quoted.

What it accepts is an operator grammar, in which `AND` and `NOT` bind alike and tighter than `OR`,
and what it prints is the printed form of the formula derived.
-/

namespace Kwiry

open Foundations List Option

/-! ## §1 Tokens -/

inductive ExplicitToken where
  | word (text : Text)
  | phrase (text : Text)
  | and | or | not
  | leftParen | rightParen | colon
  deriving DecidableEq

/-- The characters a word ends before. -/
def endsWord (c : Char) : Bool :=
  isWhitespace c || c ∈ ['(', ')', ':', '"']

/-- A phrase up to its closing quote, and what follows it. -/
def readPhrase : Text → Option (Text × Text)
  | [] => none
  | c :: rest =>
    if c = '"' then some ([], rest)
    else if c = '\\' ∨ c = '\x00' then none
    else (readPhrase rest).map fun (phrase, rest) => (c :: phrase, rest)

/-- The token of a word, unless it has what explicit queries refuse. -/
def wordToken (word : Text) : Option ExplicitToken :=
  if word = [] ∨ word.head? ∈ [some '+', some '-'] ∨
      word.any (· ∈ ['\\', '\x00', '[', ']', '{', '}', '^', '~', '?']) then none
  else if word = "AND".toList then some .and
  else if word = "OR".toList then some .or
  else if word = "NOT".toList then some .not
  else some (.word word)

lemma length_readPhrase {query phrase rest : Text} (h : readPhrase query = some (phrase, rest)) :
    rest.length < query.length := by
  induction query generalizing phrase rest with
  | nil => cases h
  | cons c query ih =>
    unfold readPhrase at h
    split at h
    · cases h
      exact Nat.lt_succ_self _
    · split at h
      · cases h
      · obtain ⟨⟨inner, after⟩, hread, heq⟩ := map_eq_some_iff.mp h
        cases heq
        exact Nat.lt_succ_of_lt (ih hread)

/-- The tokens of a text, which may have none. -/
def explicitTokens : Text → Option (List ExplicitToken)
  | [] => some []
  | c :: rest =>
    if isWhitespace c then explicitTokens rest
    else if c = '(' then (explicitTokens rest).map (.leftParen :: ·)
    else if c = ')' then (explicitTokens rest).map (.rightParen :: ·)
    else if c = ':' then (explicitTokens rest).map (.colon :: ·)
    else if c = '"' then
      match _h : readPhrase rest with
      | none => none
      | some (phrase, after) =>
        if isBlank phrase then none else (explicitTokens after).map (.phrase phrase :: ·)
    else do
      let token ← wordToken (c :: rest.takeWhile fun d => !endsWord d)
      (explicitTokens (rest.dropWhile fun d => !endsWord d)).map (token :: ·)
termination_by query => query.length
decreasing_by
  all_goals simp only [length_cons]
  all_goals try omega
  · have := length_readPhrase ‹_›
    omega
  · have := length_dropWhile_le (fun d => !endsWord d) rest
    omega

def tokenizeExplicit (query : Text) : Option (List ExplicitToken) := do
  let tokens ← explicitTokens query
  if tokens = [] then none else some tokens

/-- The text of a word or phrase. -/
def ExplicitToken.value : ExplicitToken → Text
  | .word text | .phrase text => text
  | _ => []

lemma nul_not_mem_readPhrase {query phrase rest : Text}
    (h : readPhrase query = some (phrase, rest)) : '\x00' ∉ phrase := by
  induction query generalizing phrase rest with
  | nil => cases h
  | cons c query ih =>
    unfold readPhrase at h
    split at h
    · cases h
      exact not_mem_nil
    · split at h
      · cases h
      next hrefused =>
        obtain ⟨⟨inner, after⟩, hread, heq⟩ := map_eq_some_iff.mp h
        cases heq
        have hc : '\x00' ≠ c := fun heq => hrefused (.inr heq.symm)
        exact not_mem_cons_of_ne_of_not_mem hc (ih hread)

lemma nul_not_mem_wordToken {word : Text} {token : ExplicitToken}
    (h : wordToken word = some token) : '\x00' ∉ token.value := by
  unfold wordToken at h
  split at h
  · cases h
  next hrefused =>
    have hword : '\x00' ∉ word := fun hmem => hrefused (.inr (.inr (by
      rw [List.any_eq_true]
      exact ⟨'\x00', hmem, by decide⟩)))
    split at h
    · cases h; exact not_mem_nil
    · split at h
      · cases h; exact not_mem_nil
      · split at h
        · cases h; exact not_mem_nil
        · cases h; exact hword

lemma nul_not_mem_explicitTokens {query : Text} {tokens : List ExplicitToken}
    (h : explicitTokens query = some tokens) : ∀ token ∈ tokens, '\x00' ∉ token.value := by
  have hcons : ∀ {first : ExplicitToken} {rest : Option (List ExplicitToken)} {tokens},
      '\x00' ∉ first.value → (∀ later, rest = some later → ∀ token ∈ later, '\x00' ∉ token.value) →
      rest.map (first :: ·) = some tokens → ∀ token ∈ tokens, '\x00' ∉ token.value := by
    intro first rest tokens hfirst hrest heq token hmem
    obtain ⟨later, hlater, rfl⟩ := map_eq_some_iff.mp heq
    rcases mem_cons.mp hmem with rfl | hmem
    · exact hfirst
    · exact hrest later hlater token hmem
  fun_induction explicitTokens query generalizing tokens with
  | case1 =>
    cases h
    exact fun token hmem => absurd hmem not_mem_nil
  | case2 c rest hspace ih => exact ih h
  | case3 rest hspace ih => exact hcons not_mem_nil (fun later => ih) h
  | case4 rest hspace _ ih => exact hcons not_mem_nil (fun later => ih) h
  | case5 rest hspace _ _ ih => exact hcons not_mem_nil (fun later => ih) h
  | case6 => cases h
  | case7 => cases h
  | case8 rest phrase after hread _ _ _ _ _ ih =>
    exact hcons (nul_not_mem_readPhrase hread) (fun later => ih) h
  | case9 c rest _ _ _ _ _ ih =>
    obtain ⟨token, htoken, h⟩ := bind_eq_some_iff.mp h
    exact hcons (nul_not_mem_wordToken htoken) (fun later => ih) h

/-- A token as it is written. -/
def ExplicitToken.spell : ExplicitToken → Text
  | .word text => text
  | .phrase text => '"' :: text ++ ['"']
  | .and => "AND".toList
  | .or => "OR".toList
  | .not => "NOT".toList
  | .leftParen => ['(']
  | .rightParen => [')']
  | .colon => [':']

/-- The words and phrases that can be written. -/
def Authorable : ExplicitToken → Prop
  | .word text => wordToken text = some (.word text) ∧ ∀ c ∈ text, endsWord c = false
  | .phrase text => isBlank text = false ∧ ∀ c ∈ text, c ∉ ['"', '\\', '\x00']
  | _ => True

lemma readPhrase_spelled {text rest : Text} (h : ∀ c ∈ text, c ∉ ['"', '\\', '\x00']) :
    readPhrase (text ++ '"' :: rest) = some (text, rest) := by
  induction text with
  | nil => rfl
  | cons c text ih =>
    have hc := h c mem_cons_self
    simp only [mem_cons, not_mem_nil, or_false, not_or] at hc
    rw [cons_append, readPhrase, if_neg hc.1, if_neg (not_or.mpr hc.2),
      ih fun d hd => h d (mem_cons_of_mem _ hd)]
    rfl

lemma explicitTokens_space (rest : Text) :
    explicitTokens (' ' :: rest) = explicitTokens rest := by
  rw [explicitTokens, if_pos (by decide)]

/-- A word that a space follows is one token. -/
theorem explicitTokens_word {word rest : Text} {token : ExplicitToken}
    (htoken : wordToken word = some token) (hword : ∀ c ∈ word, endsWord c = false) :
    explicitTokens (word ++ ' ' :: rest) = (explicitTokens rest).map (token :: ·) := by
  cases word with
  | nil => cases htoken
  | cons c word =>
    have hc := hword c mem_cons_self
    simp only [endsWord, Bool.or_eq_false_iff, decide_eq_false_iff_not, mem_cons,
      not_mem_nil, or_false, not_or] at hc
    obtain ⟨hspace, hleft, hright, hcolon, hquote⟩ := hc
    have hgo : ∀ d ∈ word, (!endsWord d) = true := fun d hd => by
      rw [hword d (mem_cons_of_mem _ hd)]
      rfl
    have hstop : (!endsWord ' ') = false := by decide
    have htake : (word ++ ' ' :: rest).takeWhile (fun d => !endsWord d) = word := by
      rw [takeWhile_append_of_pos hgo, takeWhile_cons_of_neg (by simp [hstop]), append_nil]
    have hdrop : (word ++ ' ' :: rest).dropWhile (fun d => !endsWord d) = ' ' :: rest := by
      rw [dropWhile_append_of_pos hgo, dropWhile_cons_of_neg (by simp [hstop])]
    rw [cons_append, explicitTokens, if_neg (by simp [hspace]), if_neg hleft, if_neg hright,
      if_neg hcolon, if_neg hquote, htake, hdrop, htoken, explicitTokens_space]
    rfl

/-- Every list of tokens that can be written is what its spelling is cut into. -/
theorem explicitTokens_spelled {tokens : List ExplicitToken}
    (h : ∀ token ∈ tokens, Authorable token) :
    explicitTokens (tokens.flatMap fun token => token.spell ++ [' ']) = some tokens := by
  induction tokens with
  | nil => rw [flatMap_nil, explicitTokens]
  | cons token tokens ih =>
    have hrest := ih fun later hlater => h later (mem_cons_of_mem _ hlater)
    have htoken := h token mem_cons_self
    have hfirst : ∀ rest, explicitTokens (token.spell ++ ' ' :: rest) =
        (explicitTokens rest).map (token :: ·) := by
      intro rest
      cases token with
      | word text => exact explicitTokens_word htoken.1 htoken.2
      | and | or | not => exact explicitTokens_word (by decide) (by decide)
      | leftParen | rightParen | colon =>
        show explicitTokens (_ :: ' ' :: rest) = _
        rw [explicitTokens, explicitTokens_space]
        simp [isWhitespace]
      | phrase text =>
        have hread : readPhrase (text ++ '"' :: ' ' :: rest) = some (text, ' ' :: rest) :=
          readPhrase_spelled htoken.2
        show explicitTokens ('"' :: (text ++ ['"'] ++ ' ' :: rest)) = _
        rw [append_assoc, singleton_append, explicitTokens, if_neg (by decide),
          if_neg (by decide), if_neg (by decide), if_neg (by decide), if_pos rfl]
        split
        next hnone =>
          rw [hread] at hnone
          cases hnone
        next heq =>
          rw [hread] at heq
          cases heq
          rw [if_neg (by simp [htoken.1]), explicitTokens_space]
    rw [flatMap_cons, append_assoc, singleton_append, hfirst, hrest]
    rfl

/-! ## §2 Operands -/

/-- The column a field name stands for. -/
def fts5Field (value : Text) : Option Text :=
  if value = "filename".toList then some "filename".toList
  else if value = "stem".toList then some "stem".toList
  else if value = "aliases".toList then some "aliases".toList
  else if value = "title".toList then some "title".toList
  else if value = "heading_text".toList then some "heading_text".toList
  else if value = "content".toList then some "content".toList
  else if value = "path".toList then some "path_text".toList
  else if value = "tags".toList then some "tags".toList
  else none

/-- The columns that a query may filter by. -/
def fts5Columns : List Text :=
  ["filename", "stem", "aliases", "title", "heading_text", "content", "path_text", "tags"].map
    String.toList

/-- A word or phrase to look for, in one column or in all. -/
structure Fts5Phrase where
  column : Option Text
  text : Text
  isPrefix : Bool

section Parser

variable (T : CharTables)

/-- What a word or phrase of a query looks for. -/
def explicitValue : ExplicitToken → Option (Text × Bool)
  | .phrase value => some (value, false)
  | .word value =>
    if value.count '*' = 0 then some (value, false)
    else if value.getLast? ≠ some '*' then none
    else
      match normalizeRaw T value.dropLast with
      | none => none
      | some stem =>
        if value.count '*' ≠ 1 ∨ !stem.all (isTermChar T) then none else some (stem, true)
  | _ => none

/-- A word or phrase as FTS5 takes it. -/
def quoted (value : Text × Bool) : Text :=
  quoteFtsPhrase value.1 ++ if value.2 then ['*'] else []

def renderExplicitValue (token : ExplicitToken) : Option Text :=
  (explicitValue T token).map quoted

/-! ## §3 The parser -/

/-- What is printed, and the tokens that are left: fewer than `n`. -/
abbrev Parsed (n : ℕ) := {result : Text × List ExplicitToken // result.2.length < n}

/-- Two expressions and the operator between them, in parentheses. -/
def printJoined (left : Text) (operator : String) (right : Text) : Text :=
  ['('] ++ left ++ [' '] ++ operator.toList ++ [' '] ++ right ++ [')']

mutual

def parseOr (tokens : List ExplicitToken) : Option (Parsed tokens.length) := do
  let left ← parseAnd tokens
  let result ← orLoop left.1.1 left.1.2
  some ⟨result.1, Nat.lt_of_lt_of_le result.2 left.2⟩
termination_by (tokens.length, 3)
decreasing_by
  · exact Prod.Lex.right _ (by omega)
  · exact Prod.Lex.left _ _ left.2

/-- The loop of `parse_or`. -/
def orLoop (left : Text) (tokens : List ExplicitToken) : Option (Parsed (tokens.length + 1)) :=
  match tokens with
  | .or :: rest => do
    let right ← parseAnd rest
    let result ← orLoop (printJoined left "OR" right.1.1) right.1.2
    some ⟨result.1, by have := result.2; have := right.2; rw [length_cons]; omega⟩
  | tokens => some ⟨(left, tokens), Nat.lt_succ_self _⟩
termination_by (tokens.length, 0)
decreasing_by
  · exact Prod.Lex.left _ _ (Nat.lt_succ_self _)
  · exact Prod.Lex.left _ _ (by have := right.2; rw [length_cons]; omega)

def parseAnd (tokens : List ExplicitToken) : Option (Parsed tokens.length) := do
  let left ← parsePrimary tokens
  let result ← andLoop left.1.1 left.1.2
  some ⟨result.1, Nat.lt_of_lt_of_le result.2 left.2⟩
termination_by (tokens.length, 2)
decreasing_by
  · exact Prod.Lex.right _ (by omega)
  · exact Prod.Lex.left _ _ left.2

/-- The loop of `parse_and`. -/
def andLoop (left : Text) (tokens : List ExplicitToken) : Option (Parsed (tokens.length + 1)) :=
  match tokens with
  | .and :: rest => do
    let right ← parsePrimary rest
    let result ← andLoop (printJoined left "AND" right.1.1) right.1.2
    some ⟨result.1, by have := result.2; have := right.2; rw [length_cons]; omega⟩
  | .not :: rest => do
    let right ← parsePrimary rest
    let result ← andLoop (printJoined left "NOT" right.1.1) right.1.2
    some ⟨result.1, by have := result.2; have := right.2; rw [length_cons]; omega⟩
  | tokens => some ⟨(left, tokens), Nat.lt_succ_self _⟩
termination_by (tokens.length, 0)
decreasing_by
  · exact Prod.Lex.left _ _ (Nat.lt_succ_self _)
  · exact Prod.Lex.left _ _ (by have := right.2; rw [length_cons]; omega)
  · exact Prod.Lex.left _ _ (Nat.lt_succ_self _)
  · exact Prod.Lex.left _ _ (by have := right.2; rw [length_cons]; omega)

def parsePrimary (tokens : List ExplicitToken) : Option (Parsed tokens.length) :=
  match tokens with
  | .leftParen :: rest => do
    let inner ← parseOr rest
    match hinner : inner.1.2 with
    | .rightParen :: after =>
      some ⟨(['('] ++ inner.1.1 ++ [')'], after), by
        have := inner.2
        rw [hinner, length_cons] at this
        show after.length < (ExplicitToken.leftParen :: rest).length
        rw [length_cons]
        omega⟩
    | _ => none
  | .word field :: .colon :: value :: rest => do
    let column ← fts5Field field
    let rendered ← renderExplicitValue T value
    some ⟨(column ++ [' ', ':', ' '] ++ rendered, rest), by simp only [length_cons]; omega⟩
  | [.word _, .colon] => none
  | value :: rest => do
    let rendered ← renderExplicitValue T value
    some ⟨(rendered, rest), Nat.lt_succ_self _⟩
  | [] => none
termination_by (tokens.length, 1)
decreasing_by exact Prod.Lex.left _ _ (Nat.lt_succ_self _)

end

def unsupportedExplicit : AdapterError :=
  adapterError "explicit_query_unsupported"
    "This explicit query is unavailable in the in-plugin backend."

def translateExplicitQuery (query : Text) : Except AdapterError Text := do
  match tokenizeExplicit query with
  | none => .error unsupportedExplicit
  | some tokens =>
    match parseOr T tokens with
    | none => .error unsupportedExplicit
    | some parsed =>
      if parsed.1.2 ≠ [] then .error unsupportedExplicit
      else boundedMatchValue parsed.1.1

/-! ## §4 What the parser does

Its equations without the bounds that its recursion rests on. -/

variable {T}

/-- What a parser prints and leaves. -/
def outcome {n : ℕ} (parsed : Option (Parsed n)) : Option (Text × List ExplicitToken) :=
  parsed.map (·.1)

variable {n : ℕ} {left : Text} {tokens rest : List ExplicitToken}

@[simp] lemma outcome_none : outcome (none : Option (Parsed n)) = none := rfl

@[simp] lemma outcome_some (parsed : Parsed n) : outcome (some parsed) = some parsed.1 :=
  rfl

lemma outcome_eq_some_iff {parsed : Option (Parsed n)} {result} :
    outcome parsed = some result ↔ ∃ h, parsed = some ⟨result, h⟩ := by
  cases parsed with
  | none => simp
  | some parsed =>
    constructor
    · intro h
      obtain rfl := some.inj h
      exact ⟨parsed.2, rfl⟩
    · intro ⟨h, heq⟩
      rw [heq]
      rfl

lemma outcome_bind {m : ℕ} (parsed : Option (Parsed n)) (next : Parsed n → Option (Parsed m)) :
    outcome (parsed.bind next) = parsed.bind fun left => outcome (next left) := by
  cases parsed <;> rfl

lemma bind_outcome {B : Type} (parsed : Option (Parsed n))
    (next : Text × List ExplicitToken → Option B) :
    (outcome parsed).bind next = parsed.bind fun left => next left.1 := by
  cases parsed <;> rfl

lemma bind_val (parsed : Option (Parsed n)) :
    (parsed.bind fun result => some result.1) = outcome parsed := by
  cases parsed <;> rfl

lemma parseOr_eq (tokens : List ExplicitToken) :
    outcome (parseOr T tokens) =
      (outcome (parseAnd T tokens)).bind fun left => outcome (orLoop T left.1 left.2) := by
  rw [parseOr, bind_outcome]
  simp only [bind, outcome_bind, outcome_some, bind_val]

lemma parseAnd_eq (tokens : List ExplicitToken) :
    outcome (parseAnd T tokens) =
      (outcome (parsePrimary T tokens)).bind fun left => outcome (andLoop T left.1 left.2) := by
  rw [parseAnd, bind_outcome]
  simp only [bind, outcome_bind, outcome_some, bind_val]

lemma orLoop_or (left : Text) (rest : List ExplicitToken) :
    outcome (orLoop T left (.or :: rest)) = (outcome (parseAnd T rest)).bind fun right =>
      outcome (orLoop T (printJoined left "OR" right.1) right.2) := by
  rw [orLoop, bind_outcome]
  simp only [bind, outcome_bind, outcome_some, bind_val]

lemma orLoop_stop (h : ∀ rest, tokens ≠ .or :: rest) :
    outcome (orLoop T left tokens) = some (left, tokens) := by
  rw [orLoop.eq_def]
  split
  · exact absurd rfl (h _)
  · rfl

lemma andLoop_and (left : Text) (rest : List ExplicitToken) :
    outcome (andLoop T left (.and :: rest)) = (outcome (parsePrimary T rest)).bind fun right =>
      outcome (andLoop T (printJoined left "AND" right.1) right.2) := by
  rw [andLoop, bind_outcome]
  simp only [bind, outcome_bind, outcome_some, bind_val]

lemma andLoop_not (left : Text) (rest : List ExplicitToken) :
    outcome (andLoop T left (.not :: rest)) = (outcome (parsePrimary T rest)).bind fun right =>
      outcome (andLoop T (printJoined left "NOT" right.1) right.2) := by
  rw [andLoop, bind_outcome]
  simp only [bind, outcome_bind, outcome_some, bind_val]

lemma andLoop_stop (hand : ∀ rest, tokens ≠ .and :: rest) (hnot : ∀ rest, tokens ≠ .not :: rest) :
    outcome (andLoop T left tokens) = some (left, tokens) := by
  rw [andLoop.eq_def]
  split
  · exact absurd rfl (hand _)
  · exact absurd rfl (hnot _)
  · rfl

lemma parsePrimary_group {inner : Text}
    (h : outcome (parseOr T tokens) = some (inner, .rightParen :: rest)) :
    outcome (parsePrimary T (.leftParen :: tokens)) = some (['('] ++ inner ++ [')'], rest) := by
  obtain ⟨hlt, h⟩ := outcome_eq_some_iff.mp h
  rw [parsePrimary]
  simp only [h, bind, bind_some]
  rfl

/-- One word or phrase, or one in a column. -/
inductive ExplicitOperand (T : CharTables) : List ExplicitToken → Fts5Phrase → Prop
  | value {token : ExplicitToken} {value : Text × Bool} (h : explicitValue T token = some value) :
      ExplicitOperand T [token] ⟨none, value.1, value.2⟩
  | filtered {field column : Text} {token : ExplicitToken} {value : Text × Bool}
      (hfield : fts5Field field = some column) (h : explicitValue T token = some value) :
      ExplicitOperand T [.word field, .colon, token] ⟨some column, value.1, value.2⟩

/-- A word or phrase as it is printed, after its column. -/
def Fts5Phrase.render (a : Fts5Phrase) : Text :=
  match a.column with
  | none => quoted (a.text, a.isPrefix)
  | some column => column ++ [' ', ':', ' '] ++ quoted (a.text, a.isPrefix)

/-- A primary expression is a group or an operand. -/
theorem parsePrimary_cases {text : Text} (h : outcome (parsePrimary T tokens) = some (text, rest)) :
    (∃ inner ts, tokens = .leftParen :: ts ∧
      outcome (parseOr T ts) = some (inner, .rightParen :: rest) ∧ text = ['('] ++ inner ++ [')']) ∨
    ∃ used a, ExplicitOperand T used a ∧ tokens = used ++ rest ∧ text = a.render := by
  obtain ⟨hlt, h⟩ := outcome_eq_some_iff.mp h
  rw [parsePrimary.eq_def] at h
  split at h
  next ts _ =>
    obtain ⟨inner, hparse, h⟩ := bind_eq_some_iff.mp h
    split at h
    next after hinner =>
      obtain ⟨rfl, rfl⟩ := Prod.mk.inj (Subtype.mk.inj (some.inj h))
      refine .inl ⟨inner.1.1, _, rfl, ?_, rfl⟩
      rw [hparse, outcome_some, ← hinner]
    next => cases h
  next field value after =>
    obtain ⟨column, hfield, h⟩ := bind_eq_some_iff.mp h
    obtain ⟨rendered, hvalue, h⟩ := bind_eq_some_iff.mp h
    obtain ⟨rfl, rfl⟩ := Prod.mk.inj (Subtype.mk.inj (some.inj h))
    obtain ⟨v, hv, rfl⟩ := map_eq_some_iff.mp hvalue
    exact .inr ⟨_, _, .filtered hfield hv, rfl, rfl⟩
  next => cases h
  next value after _ _ _ =>
    obtain ⟨rendered, hvalue, h⟩ := bind_eq_some_iff.mp h
    obtain ⟨rfl, rfl⟩ := Prod.mk.inj (Subtype.mk.inj (some.inj h))
    obtain ⟨v, hv, rfl⟩ := map_eq_some_iff.mp hvalue
    exact .inr ⟨_, _, .value hv, rfl, rfl⟩
  next => cases h

/-- An operand is parsed whole where one may end. -/
theorem parsePrimary_operand {used : List ExplicitToken} {a : Fts5Phrase}
    (h : ExplicitOperand T used a) (hrest : ∀ after, rest ≠ .colon :: after) :
    outcome (parsePrimary T (used ++ rest)) = some (a.render, rest) := by
  cases h with
  | @filtered field column token value hfield hvalue =>
    rw [cons_append, cons_append, cons_append, nil_append, parsePrimary]
    simp only [bind, renderExplicitValue, hfield, hvalue, bind_some, map_some]
    rfl
  | @value token value hvalue =>
    rw [singleton_append, parsePrimary]
    · simp only [bind, renderExplicitValue, hvalue, bind_some, map_some]
      rfl
    · intro heq
      rw [heq] at hvalue
      cases hvalue
    · exact fun _ _ after _ hcolon => hrest _ hcolon
    · exact fun _ _ hcolon => hrest _ hcolon

/-! ## §5 The grammar of queries -/

inductive ExplicitOp where
  | and | or | not

def ExplicitOp.token : ExplicitOp → ExplicitToken
  | .and => .and
  | .or => .or
  | .not => .not

def ExplicitOp.text : ExplicitOp → String
  | .and => "AND"
  | .or => "OR"
  | .not => "NOT"

/-- `AND` and `NOT` bind alike, and tighter than `OR`. -/
def ExplicitOp.precedence : ExplicitOp → ℕ
  | .or => 0
  | .and | .not => 1

variable (T) in
def explicitGrammar : OperatorGrammar ExplicitToken ExplicitOp Fts5Phrase where
  precedence := ExplicitOp.precedence
  operator := ExplicitOp.token
  opening := .leftParen
  closing := .rightParen
  Operand := ExplicitOperand T

/-- A formula as it is printed. -/
def renderExplicit : Formula ExplicitOp Fts5Phrase → Text
  | .atom a => a.render
  | .group inner => ['('] ++ renderExplicit inner ++ [')']
  | .joined o left right => printJoined (renderExplicit left) o.text (renderExplicit right)

lemma explicitValue_word_or_phrase {token : ExplicitToken} {value : Text × Bool}
    (h : explicitValue T token = some value) :
    ∃ text, token = .word text ∨ token = .phrase text := by
  cases token with
  | word text => exact ⟨text, .inl rfl⟩
  | phrase text => exact ⟨text, .inr rfl⟩
  | and | or | not | leftParen | rightParen | colon => cases h

lemma boundary_ne_colon (h : (explicitGrammar T).Boundary rest) (after : List ExplicitToken) :
    rest ≠ .colon :: after := by
  cases h with
  | done => simp
  | closing rest => simp [explicitGrammar]
  | operator o rest => cases o <;> simp [explicitGrammar, ExplicitOp.token]

lemma explicitGrammar_lawful : (explicitGrammar T).Lawful where
  operator_injective o o' h := by
    cases o <;> cases o' <;> first | rfl | cases h
  operator_ne_closing o h := by cases o <;> cases h
  not_operand_opening ts a h := by
    generalize hts : (explicitGrammar T).opening :: ts = us at h
    cases h with
    | value h =>
      obtain ⟨text, rfl | rfl⟩ := explicitValue_word_or_phrase h <;> cases hts
    | filtered => cases hts
  operand_ne_nil a h := by
    generalize hts : ([] : List ExplicitToken) = us at h
    cases h <;> cases hts
  operand_unique {ts us rest rest' a b} h h' hb hb' heq := by
    cases h with
    | value hv =>
      cases h' with
      | value hv' =>
        obtain ⟨rfl, rfl⟩ := cons.inj heq
        rw [hv] at hv'
        cases hv'
        exact ⟨rfl, rfl⟩
      | filtered => exact absurd (cons.inj heq).2 (boundary_ne_colon hb _)
    | filtered hfield hv =>
      cases h' with
      | value => exact absurd (cons.inj heq).2.symm (boundary_ne_colon hb' _)
      | filtered hfield' hv' =>
        simp only [cons_append, nil_append, cons.injEq, true_and, ExplicitToken.word.injEq] at heq
        obtain ⟨rfl, rfl, rfl⟩ := heq
        rw [hfield] at hfield'
        rw [hv] at hv'
        cases hfield'
        cases hv'
        exact ⟨rfl, rfl⟩

/-! ## §6 The parser accepts what the grammar derives -/

/-- A parser took tokens that the grammar derives a formula from, and printed that formula. -/
def Took (T : CharTables) (p : ℕ) (tokens : List ExplicitToken)
    (result : Text × List ExplicitToken) : Prop :=
  ∃ used e, tokens = used ++ result.2 ∧ (explicitGrammar T).Derives p used e ∧
    result.1 = renderExplicit e

lemma length_lt_of_outcome {parsed : Option (Parsed n)} {text : Text}
    (h : outcome parsed = some (text, rest)) : rest.length < n :=
  (outcome_eq_some_iff.mp h).1

/-- One round of the loop of `parse_and`, or none. -/
theorem andLoop_cases {text : Text} (h : outcome (andLoop T left tokens) = some (text, rest)) :
    (text = left ∧ rest = tokens) ∨ ∃ o : ExplicitOp, o.precedence = 1 ∧ ∃ ts right mid,
      tokens = o.token :: ts ∧ outcome (parsePrimary T ts) = some (right, mid) ∧
      outcome (andLoop T (printJoined left o.text right) mid) = some (text, rest) := by
  by_cases hand : ∃ ts, tokens = .and :: ts
  · obtain ⟨ts, rfl⟩ := hand
    rw [andLoop_and] at h
    obtain ⟨⟨right, mid⟩, hright, hrest⟩ := bind_eq_some_iff.mp h
    exact .inr ⟨.and, rfl, ts, right, mid, rfl, hright, hrest⟩
  · by_cases hnot : ∃ ts, tokens = .not :: ts
    · obtain ⟨ts, rfl⟩ := hnot
      rw [andLoop_not] at h
      obtain ⟨⟨right, mid⟩, hright, hrest⟩ := bind_eq_some_iff.mp h
      exact .inr ⟨.not, rfl, ts, right, mid, rfl, hright, hrest⟩
    · rw [andLoop_stop (fun ts h => hand ⟨ts, h⟩) (fun ts h => hnot ⟨ts, h⟩)] at h
      obtain ⟨rfl, rfl⟩ := Prod.mk.inj (some.inj h)
      exact .inl ⟨rfl, rfl⟩

/-- One round of the loop of `parse_or`, or none. -/
theorem orLoop_cases {text : Text} (h : outcome (orLoop T left tokens) = some (text, rest)) :
    (text = left ∧ rest = tokens) ∨ ∃ o : ExplicitOp, o.precedence = 0 ∧ ∃ ts right mid,
      tokens = o.token :: ts ∧ outcome (parseAnd T ts) = some (right, mid) ∧
      outcome (orLoop T (printJoined left o.text right) mid) = some (text, rest) := by
  by_cases hor : ∃ ts, tokens = .or :: ts
  · obtain ⟨ts, rfl⟩ := hor
    rw [orLoop_or] at h
    obtain ⟨⟨right, mid⟩, hright, hrest⟩ := bind_eq_some_iff.mp h
    exact .inr ⟨.or, rfl, ts, right, mid, rfl, hright, hrest⟩
  · rw [orLoop_stop (fun ts h => hor ⟨ts, h⟩)] at h
    obtain ⟨rfl, rfl⟩ := Prod.mk.inj (some.inj h)
    exact .inl ⟨rfl, rfl⟩

section Level

variable {p : ℕ} {next : List ExplicitToken → Option (Text × List ExplicitToken)}
  {loop : Text → List ExplicitToken → Option (Text × List ExplicitToken)}
  (hcases : ∀ {left tokens text rest}, loop left tokens = some (text, rest) →
    (text = left ∧ rest = tokens) ∨ ∃ o : ExplicitOp, o.precedence = p ∧ ∃ ts right mid,
      tokens = o.token :: ts ∧ next ts = some (right, mid) ∧
      loop (printJoined left o.text right) mid = some (text, rest))
  (hshorter : ∀ {tokens text rest}, next tokens = some (text, rest) → rest.length < tokens.length)
  (hnext : ∀ ts : List ExplicitToken, ts.length ≤ n → ∀ result, next ts = some result →
    Took T (p + 1) ts result)

include hcases hshorter hnext

/-- What a loop over the operators of one precedence adds to a formula. -/
theorem loop_sound (tokens : List ExplicitToken) (hn : tokens.length ≤ n) {ls : List ExplicitToken}
    {l : Formula ExplicitOp Fts5Phrase} (hl : (explicitGrammar T).Derives p ls l) {text : Text}
    (h : loop (renderExplicit l) tokens = some (text, rest)) :
    ∃ used e, tokens = used ++ rest ∧ (explicitGrammar T).Derives p (ls ++ used) e ∧
      text = renderExplicit e := by
  rcases hcases h with ⟨rfl, rfl⟩ | ⟨o, ho, ts, right, mid, rfl, hright, hrest⟩
  · exact ⟨[], l, rfl, (append_nil ls).symm ▸ hl, rfl⟩
  · have hmid := hshorter hright
    rw [length_cons] at hn
    obtain ⟨used, r, hts, hr, rfl⟩ := hnext ts (by omega) _ hright
    have hjoined : (explicitGrammar T).Derives p (ls ++ o.token :: used) (.joined o l r) := by
      have hp : (explicitGrammar T).precedence o = p := ho
      refine .joined (Nat.le_of_eq hp.symm) ?_ ?_
      · rw [hp]
        exact hl
      · rw [hp]
        exact hr
    obtain ⟨more, e, rfl, he, heq⟩ := loop_sound mid (by omega) hjoined hrest
    refine ⟨o.token :: used ++ more, e, ?_, ?_, heq⟩
    · rw [hts]
      simp
    · simpa using he
termination_by tokens.length

/-- What the parser of one precedence prints is a formula of the tokens it took. -/
theorem level_sound {tokens : List ExplicitToken} (hn : tokens.length ≤ n)
    {result : Text × List ExplicitToken}
    (h : ((next tokens).bind fun left => loop left.1 left.2) = some result) :
    Took T p tokens result := by
  obtain ⟨⟨left, mid⟩, hleft, hloop⟩ := bind_eq_some_iff.mp h
  obtain ⟨ls, l, hts, hl, heq⟩ := hnext tokens hn _ hleft
  have hmid := hshorter hleft
  rw [show left = renderExplicit l from heq] at hloop
  obtain ⟨used, e, hmidEq, he, htext⟩ := loop_sound hcases hshorter hnext mid (by omega)
    (hl.mono (Nat.le_succ p)) hloop
  exact ⟨ls ++ used, e, by rw [hts, show mid = _ from hmidEq, append_assoc], he, htext⟩

end Level

lemma parsePrimary_sound (hor : ∀ ts : List ExplicitToken, ts.length < tokens.length →
      ∀ result, outcome (parseOr T ts) = some result → Took T 0 ts result)
    {result : Text × List ExplicitToken} (h : outcome (parsePrimary T tokens) = some result) :
    Took T 2 tokens result := by
  obtain ⟨text, rest⟩ := result
  rcases parsePrimary_cases h with ⟨inner, ts, rfl, hinner, rfl⟩ | ⟨used, a, ha, rfl, rfl⟩
  · obtain ⟨used, e, hts, he, heq⟩ := hor ts (Nat.lt_succ_self _) _ hinner
    refine ⟨_, .group e, ?_, .group 2 he, ?_⟩
    · rw [hts]
      simp [explicitGrammar]
    · show ['('] ++ inner ++ [')'] = ['('] ++ renderExplicit e ++ [')']
      rw [show inner = renderExplicit e from heq]
  · exact ⟨used, .atom a, rfl, .operand 2 ha, rfl⟩

lemma parseAnd_sound (hor : ∀ ts : List ExplicitToken, ts.length < tokens.length →
      ∀ result, outcome (parseOr T ts) = some result → Took T 0 ts result)
    {result : Text × List ExplicitToken} (h : outcome (parseAnd T tokens) = some result) :
    Took T 1 tokens result := by
  rw [parseAnd_eq] at h
  exact level_sound andLoop_cases length_lt_of_outcome
    (fun ts hts _ => parsePrimary_sound fun us hus => hor us (hus.trans_le hts)) le_rfl h

lemma parseOr_sound (tokens : List ExplicitToken) {result : Text × List ExplicitToken}
    (h : outcome (parseOr T tokens) = some result) : Took T 0 tokens result := by
  have hor : ∀ ts : List ExplicitToken, ts.length < tokens.length → ∀ result,
      outcome (parseOr T ts) = some result → Took T 0 ts result := fun ts _ _ => parseOr_sound ts
  rw [parseOr_eq] at h
  exact level_sound orLoop_cases length_lt_of_outcome
    (fun ts hts _ => parseAnd_sound fun us hus => hor us (hus.trans_le hts)) le_rfl h
termination_by tokens.length

/-- How the parser goes on after a formula, by the operators that it still looks for. -/
def goOn (T : CharTables) : ℕ → Text → List ExplicitToken → Option (Text × List ExplicitToken)
  | 0, left, tokens =>
    (outcome (andLoop T left tokens)).bind fun left => outcome (orLoop T left.1 left.2)
  | 1, left, tokens => outcome (andLoop T left tokens)
  | _, left, tokens => some (left, tokens)

lemma goOn_zero (left : Text) (tokens : List ExplicitToken) :
    goOn T 0 left tokens =
      (outcome (andLoop T left tokens)).bind fun left => outcome (orLoop T left.1 left.2) :=
  rfl

/-- The parser that looks for operators of a precedence or higher. -/
def parseAt (T : CharTables) (p : ℕ) (tokens : List ExplicitToken) :
    Option (Text × List ExplicitToken) :=
  (outcome (parsePrimary T tokens)).bind fun left => goOn T p left.1 left.2

lemma parseAt_zero (tokens : List ExplicitToken) :
    parseAt T 0 tokens = outcome (parseOr T tokens) := by
  rw [parseOr_eq, parseAnd_eq, bind_assoc]
  rfl

lemma parseAt_one (tokens : List ExplicitToken) :
    parseAt T 1 tokens = outcome (parseAnd T tokens) := by
  rw [parseAnd_eq]
  rfl

lemma parseAt_two (tokens : List ExplicitToken) :
    parseAt T 2 tokens = outcome (parsePrimary T tokens) := by
  unfold parseAt
  cases outcome (parsePrimary T tokens) <;> rfl

lemma goOn_stop {p : ℕ} (h : (explicitGrammar T).Ends p rest) :
    goOn T p left rest = some (left, rest) := by
  have hand : p ≤ 1 → outcome (andLoop T left rest) = some (left, rest) := by
    intro hp
    apply andLoop_stop
    · exact fun ts heq => absurd (h .and ts heq) (Nat.not_lt.mpr hp)
    · exact fun ts heq => absurd (h .not ts heq) (Nat.not_lt.mpr hp)
  match p with
  | 0 =>
    rw [goOn_zero, hand (Nat.zero_le 1), bind_some]
    exact orLoop_stop fun ts heq => absurd (h .or ts heq) (Nat.not_lt_zero _)
  | 1 => exact hand (Nat.le_refl 1)
  | _ + 2 => rfl

/-- The parser takes an operator of those it looks for, and its right operand. -/
theorem goOn_operator {q : ℕ} {o : ExplicitOp} {right : Text}
    (hq : q ≤ (explicitGrammar T).precedence o)
    (hright : parseAt T ((explicitGrammar T).precedence o + 1) tokens = some (right, rest))
    (hfollows : (explicitGrammar T).Follows ((explicitGrammar T).precedence o) rest) :
    goOn T q left (o.token :: tokens) = goOn T q (printJoined left o.text right) rest := by
  -- the loop of `parse_and` takes the operators that bind tightly
  have htight : ∀ joined, o.precedence = 1 → outcome (andLoop T left (o.token :: tokens)) =
      outcome (andLoop T joined rest) →
      goOn T q left (o.token :: tokens) = goOn T q joined rest := by
    intro joined ho heq
    have hq' : q ≤ 1 := ho ▸ hq
    match q with
    | 0 => rw [goOn_zero, goOn_zero, heq]
    | 1 => exact heq
    | q + 2 => omega
  cases o with
  | and =>
    apply htight _ rfl
    rw [show ExplicitOp.and.token = ExplicitToken.and from rfl, andLoop_and, ← parseAt_two]
    rw [show parseAt T 2 tokens = some (right, rest) from hright]
    rfl
  | not =>
    apply htight _ rfl
    rw [show ExplicitOp.not.token = ExplicitToken.not from rfl, andLoop_not, ← parseAt_two]
    rw [show parseAt T 2 tokens = some (right, rest) from hright]
    rfl
  | or =>
    obtain rfl : q = 0 := Nat.le_zero.mp hq
    have hstop : ∀ joined, goOn T 1 joined rest = some (joined, rest) := fun joined =>
      goOn_stop (hfollows.ends (Nat.lt_succ_self 0))
    rw [show ExplicitOp.or.token = ExplicitToken.or from rfl, goOn_zero, goOn_zero,
      andLoop_stop (fun _ heq => by cases heq) (fun _ heq => by cases heq), bind_some,
      orLoop_or, ← parseAt_one]
    rw [show parseAt T 1 tokens = some (right, rest) from hright, bind_some]
    rw [show outcome (andLoop T _ rest) = some (_, rest) from
      hstop (printJoined left ExplicitOp.or.text right)]
    rfl

/-- What the grammar derives is parsed, and printed. -/
theorem parseAt_derives {p : ℕ} {e : Formula ExplicitOp Fts5Phrase}
    (h : (explicitGrammar T).Derives p tokens e) :
    ∀ q ≤ p, ∀ rest, (explicitGrammar T).Boundary rest → (explicitGrammar T).Follows p rest →
      parseAt T q (tokens ++ rest) = goOn T q (renderExplicit e) rest := by
  induction h with
  | operand p ha =>
    intro q _ rest hb _
    unfold parseAt
    rw [parsePrimary_operand ha (boundary_ne_colon hb)]
    rfl
  | @group p ts e h ih =>
    intro q _ rest hb _
    have hinner : outcome (parseOr T (ts ++ .rightParen :: rest)) =
        some (renderExplicit e, .rightParen :: rest) := by
      rw [← parseAt_zero]
      have hclosing := explicitGrammar_lawful (T := T) |>.follows_closing 0 rest
      rw [show ExplicitToken.rightParen :: rest = (explicitGrammar T).closing :: rest from rfl]
      rw [ih 0 (Nat.le_refl 0) _ (.closing rest) hclosing]
      exact goOn_stop (explicitGrammar_lawful.ends_closing 0 rest)
    have hgroup := parsePrimary_group hinner
    unfold parseAt
    rw [append_assoc]
    show (outcome (parsePrimary T (.leftParen :: (ts ++ .rightParen :: rest)))).bind _ = _
    rw [hgroup]
    rfl
  | @joined p o ls rs l r hp hl hr ihl ihr =>
    intro q hq rest hb hfollows
    have hright := ihr _ (Nat.le_refl _) rest hb (hfollows.mono (by omega))
    rw [goOn_stop (hfollows.ends (by omega))] at hright
    rw [append_assoc, cons_append,
      ihl q (Nat.le_trans hq hp) _ (.operator o _) (explicitGrammar_lawful.follows_operator o _)]
    exact goOn_operator (Nat.le_trans hq hp) hright (hfollows.mono hp)

lemma parseOr_complete {e : Formula ExplicitOp Fts5Phrase}
    (h : (explicitGrammar T).Derives 0 tokens e) :
    outcome (parseOr T tokens) = some (renderExplicit e, []) := by
  have hparse := parseAt_derives h 0 (Nat.le_refl 0) [] .done (OperatorGrammar.follows_nil 0)
  rw [append_nil, parseAt_zero] at hparse
  rw [hparse]
  exact goOn_stop fun _ _ heq => by cases heq

lemma boundedMatchValue_ok_iff {value text : Text} :
    boundedMatchValue value = .ok text ↔ text = value ∧ utf8Len value ≤ maxMatchValueBytes := by
  unfold boundedMatchValue
  rw [bind_unit_ok_iff, rejectIf_ok, Except.ok.injEq, not_lt, eq_comm (a := text)]
  exact and_comm

/-- What a query is translated to: the printed form of the formula that its tokens derive. -/
theorem translateExplicitQuery_iff {query rendered : Text} :
    translateExplicitQuery T query = .ok rendered ↔
      ∃ tokens e, tokenizeExplicit query = some tokens ∧
        (explicitGrammar T).Derives 0 tokens e ∧ rendered = renderExplicit e ∧
        utf8Len (renderExplicit e) ≤ maxMatchValueBytes := by
  unfold translateExplicitQuery
  constructor
  · intro h
    cases htokens : tokenizeExplicit query with
    | none => simp [htokens] at h
    | some tokens =>
      cases hparse : parseOr T tokens with
      | none => simp [htokens, hparse] at h
      | some parsed =>
        obtain ⟨⟨text, rest⟩, hlt⟩ := parsed
        simp only [htokens, hparse] at h
        split at h
        · cases h
        next hdone =>
          obtain rfl : rest = [] := not_not.mp hdone
          obtain ⟨used, e, hts, he, heq⟩ := parseOr_sound tokens (congrArg outcome hparse)
          obtain ⟨rfl, hfits⟩ := boundedMatchValue_ok_iff.mp h
          refine ⟨tokens, e, rfl, ?_, heq, heq ▸ hfits⟩
          rw [hts]
          simpa using he
  · intro ⟨tokens, e, htokens, he, hrendered, hfits⟩
    obtain ⟨hlt, hparse⟩ := outcome_eq_some_iff.mp (parseOr_complete he)
    simp only [htokens, hparse, ne_eq, not_true_eq_false, if_false]
    exact boundedMatchValue_ok_iff.mpr ⟨hrendered, hfits⟩

end Parser

end Kwiry
