import Kwiry.Service.Definitions

/-!
# How Service Definitions Are Read

systemd and Windows undo what the writers have escaped, each in its own order. systemd unquotes the
words of a command, then halves percent signs, and then dollar signs, but the last not in the path
of the command. Windows splits arguments by its own rules for backslashes before quotes.
-/

namespace Kwiry.Service

open Foundations List

/-! ## §1 Reading a unit -/

/-- The values of `ExecStart`, line by line. -/
def execStartValues (unit : Text) : List Text :=
  (unit.splitOn '\n').filterMap fun line =>
    if "ExecStart=".toList.isPrefixOf line then some (line.drop "ExecStart=".length) else none

/-- The escapes of C that are one letter. -/
def cEscape (c : Char) : Option Char :=
  [('a', '\x07'), ('b', '\x08'), ('f', '\x0c'), ('n', '\n'), ('r', '\r'), ('t', '\t'),
    ('v', '\x0b'), ('s', ' '), ('\\', '\\'), ('"', '"'), ('\'', '\'')].lookup c

def hexValue (c : Char) : Option ℕ :=
  if '0' ≤ c ∧ c ≤ '9' then some (c.toNat - 48)
  else if 'a' ≤ c ∧ c ≤ 'f' then some (c.toNat - 87)
  else if 'A' ≤ c ∧ c ≤ 'F' then some (c.toNat - 55)
  else none

/-- Where a reader of words is: between words, in a quoted word with what it has read of it, after a
backslash, in the digits of a byte, or after a word. -/
inductive Reading where
  | between
  | inside (word : Bytes)
  | escaped (word : Bytes)
  | high (word : Bytes)
  | low (word : Bytes) (digit : ℕ)
  | closed (word : Bytes)

/-- The double-quoted words of a command. -/
def readWords : Reading → Text → Option (List Bytes)
  | .between, [] => some []
  | .closed word, [] => some [word]
  | _, [] => none
  | .between, c :: rest =>
    if c = ' ' then readWords .between rest
    else if c = '"' then readWords (.inside []) rest
    else none
  | .inside word, c :: rest =>
    if c = '"' then readWords (.closed word) rest
    else if c = '\\' then readWords (.escaped word) rest
    else readWords (.inside (word ++ utf8 [c])) rest
  | .escaped word, c :: rest =>
    if c = 'x' then readWords (.high word) rest
    else
      match cEscape c with
      | some d => readWords (.inside (word ++ utf8 [d])) rest
      | none => none
  | .high word, c :: rest =>
    match hexValue c with
    | some d => readWords (.low word d) rest
    | none => none
  | .low word digit, c :: rest =>
    match hexValue c with
    | some d => readWords (.inside (word ++ [UInt8.ofNat (16 * digit + d)])) rest
    | none => none
  | .closed word, c :: rest =>
    if c = ' ' then (readWords .between rest).map (word :: ·) else none

/-- The words of a command: percent signs are halved in all of them, and dollar signs in the
arguments. -/
def readExecStart (value : Text) : Option (List Bytes) :=
  match readWords .between value with
  | none => none
  | some [] => none
  | some (command :: arguments) => do
    let command ← halve (UInt8.ofNat '%'.toNat) command
    let arguments ← arguments.mapM fun word =>
      (halve (UInt8.ofNat '%'.toNat) word).bind (halve (UInt8.ofNat '$'.toNat))
    return command :: arguments

/-! ## §2 Quoted words -/

/-- What a word has between the quotes, as it is unquoted. -/
def quoted (path : Text) : Text := double '%' (double '$' path)

lemma hexValue_hexDigit {n : ℕ} (h : n < 16) : hexValue (hexDigit n) = some n := by
  have hall : ∀ m < 16, hexValue (hexDigit m) = some m := by decide
  exact hall n h

lemma readWords_digits {c c' : Char} {d d' : ℕ} (hhigh : hexValue c = some d)
    (hlow : hexValue c' = some d') (word : Bytes) (rest : Text) :
    readWords (.high word) (c :: c' :: rest) =
      readWords (.inside (word ++ [UInt8.ofNat (16 * d + d')])) rest := by
  rw [readWords, hhigh]
  simp only
  rw [readWords, hlow]

lemma readWords_hexEscape (word : Bytes) (b : UInt8) (rest : Text) :
    readWords (.inside word) (hexEscape b ++ rest) = readWords (.inside (word ++ [b])) rest := by
  have hlt := b.toNat_lt
  have hbyte : UInt8.ofNat (16 * (b.toNat / 16) + b.toNat % 16) = b := by
    rw [Nat.div_add_mod, UInt8.ofNat_toNat]
  show readWords (.high word) (hexDigit (b.toNat / 16) :: hexDigit (b.toNat % 16) :: rest) = _
  rw [readWords_digits (hexValue_hexDigit (by omega)) (hexValue_hexDigit (by omega)), hbyte]

lemma readWords_hexEscapes (word bytes : Bytes) (rest : Text) :
    readWords (.inside word) (bytes.flatMap hexEscape ++ rest) =
      readWords (.inside (word ++ bytes)) rest := by
  induction bytes generalizing word with
  | nil => rw [append_nil]; rfl
  | cons b bytes ih =>
    rw [flatMap_cons, append_assoc, readWords_hexEscape, ih, append_assoc,
      singleton_append]

lemma readWords_plain {c : Char} (hquote : c ≠ '"') (hback : c ≠ '\\') (word : Bytes)
    (rest : Text) :
    readWords (.inside word) (c :: rest) = readWords (.inside (word ++ utf8 [c])) rest :=
  (if_neg hquote).trans (if_neg hback)

lemma readWords_escape {c d : Char} (hx : c ≠ 'x') (hc : cEscape c = some d) (word : Bytes)
    (rest : Text) :
    readWords (.inside word) ('\\' :: c :: rest) = readWords (.inside (word ++ utf8 [d])) rest := by
  show readWords (.escaped word) (c :: rest) = _
  rw [readWords, if_neg hx, hc]

/-- One character is read back, percent and dollar signs twice. -/
theorem readWords_quoteSystemdChar (word : Bytes) (c : Char) (rest : Text) :
    readWords (.inside word) (quoteSystemdChar c ++ rest) =
      readWords (.inside (word ++ utf8 (quoted [c]))) rest := by
  by_cases hpercent : c = '%'
  · rw [hpercent]
    show readWords (.inside word) ('%' :: '%' :: rest) = _
    rw [readWords_plain (by decide) (by decide), readWords_plain (by decide) (by decide),
      append_assoc]
    rfl
  by_cases hdollar : c = '$'
  · rw [hdollar]
    show readWords (.inside word) ('$' :: '$' :: rest) = _
    rw [readWords_plain (by decide) (by decide), readWords_plain (by decide) (by decide),
      append_assoc]
    rfl
  have hone : double '$' [c] = [c] := double_eq_self_iff.mpr (by simpa using Ne.symm hdollar)
  have hquoted : quoted [c] = [c] := by
    rw [quoted, hone]
    exact double_eq_self_iff.mpr (by simpa using Ne.symm hpercent)
  rw [hquoted, quoteSystemdChar, if_neg hpercent, if_neg hdollar]
  split_ifs with hquote hback
  -- five characters have an escape of their own, other controls one for each byte
  any_goals
    subst c
    exact readWords_escape (by decide) rfl word rest
  · exact readWords_hexEscapes word _ rest
  · exact readWords_plain hquote hback word rest

lemma quoted_cons (c : Char) (path : Text) : quoted (c :: path) = quoted [c] ++ quoted path := by
  simp [quoted, double]

lemma readWords_inside (word : Bytes) (path rest : Text) :
    readWords (.inside word) (path.flatMap quoteSystemdChar ++ '"' :: rest) =
      readWords (.closed (word ++ utf8 (quoted path))) rest := by
  induction path generalizing word with
  | nil =>
    show readWords (.closed word) rest = readWords (.closed (word ++ [])) rest
    rw [append_nil]
  | cons c path ih =>
    rw [flatMap_cons, append_assoc, readWords_quoteSystemdChar, ih, append_assoc,
      quoted_cons c path, utf8_append]

lemma readWords_quoteSystemdArgument (path rest : Text) :
    readWords .between (quoteSystemdArgument path ++ rest) =
      readWords (.closed (utf8 (quoted path))) rest := by
  rw [quoteSystemdArgument, cons_append, cons_append, append_assoc, singleton_append]
  exact readWords_inside [] path rest

lemma readWords_space (word : Bytes) (rest : Text) :
    readWords (.closed word) (' ' :: rest) = (readWords .between rest).map (word :: ·) :=
  rfl

/-! ## §3 The unit -/

lemma readWords_quoteSystemdArgument_space (path rest : Text) :
    readWords .between (quoteSystemdArgument path ++ ' ' :: rest) =
      (readWords .between rest).map (utf8 (quoted path) :: ·) := by
  rw [readWords_quoteSystemdArgument, readWords_space]

lemma execStart_eq (spec : ServiceSpec) :
    execStart spec = quoteSystemdArgument spec.executable ++
      ' ' :: (quoteSystemdArgument "--config".toList ++
      ' ' :: (quoteSystemdArgument spec.config ++
      ' ' :: (quoteSystemdArgument "--data-dir".toList ++
      ' ' :: (quoteSystemdArgument spec.dataDir ++
      ' ' :: (quoteSystemdArgument "serve".toList ++ []))))) := by
  simp [execStart, quoteSystemdArgument, quoteSystemdChar, isControl]

lemma halve_quoted (path : Text) :
    (halve (UInt8.ofNat '%'.toNat) (utf8 (quoted path))).bind (halve (UInt8.ofNat '$'.toNat)) =
      some (utf8 path) := by
  rw [quoted, halve_double (by decide)]
  exact halve_double (by decide) path

/-- What systemd makes of the command: the arguments are read back, and the path of the command with
its dollar signs doubled. -/
theorem readExecStart_execStart (spec : ServiceSpec) :
    readExecStart (execStart spec) = some ([double '$' spec.executable, "--config".toList,
      spec.config, "--data-dir".toList, spec.dataDir, "serve".toList].map utf8) := by
  have hwords : readWords .between (execStart spec) =
      some ([spec.executable, "--config".toList, spec.config, "--data-dir".toList, spec.dataDir,
        "serve".toList].map fun path => utf8 (quoted path)) := by
    rw [execStart_eq, readWords_quoteSystemdArgument_space, readWords_quoteSystemdArgument_space,
      readWords_quoteSystemdArgument_space, readWords_quoteSystemdArgument_space,
      readWords_quoteSystemdArgument_space, readWords_quoteSystemdArgument]
    rfl
  have hcommand : halve (UInt8.ofNat '%'.toNat) (utf8 (quoted spec.executable)) =
      some (utf8 (double '$' spec.executable)) := halve_double (by decide) _
  rw [readExecStart, hwords]
  simp only [map_cons, map_nil, hcommand, mapM_cons, mapM_nil, halve_quoted]
  rfl

lemma not_mem_hexEscape {c : Char} (hc : c = '\n' ∨ c = '\r') (b : UInt8) : c ∉ hexEscape b := by
  have hdigits : ∀ n < 16, hexDigit n ≠ '\n' ∧ hexDigit n ≠ '\r' := by decide
  have hlt := b.toNat_lt
  obtain ⟨hhigh, hhigh'⟩ := hdigits (b.toNat / 16) (by omega)
  obtain ⟨hlow, hlow'⟩ := hdigits (b.toNat % 16) (by omega)
  rcases hc with rfl | rfl
  · simp [hexEscape, Ne.symm hhigh, Ne.symm hlow]
  · simp [hexEscape, Ne.symm hhigh', Ne.symm hlow']

lemma not_mem_quoteSystemdChar {c : Char} (hc : c = '\n' ∨ c = '\r') (d : Char) :
    c ∉ quoteSystemdChar d := by
  unfold quoteSystemdChar
  split_ifs with h1 h2 h3 h4 hfeed hreturn htab hcontrol
  · rcases hc with rfl | rfl <;> decide
  · rcases hc with rfl | rfl <;> decide
  · rcases hc with rfl | rfl <;> decide
  · rcases hc with rfl | rfl <;> decide
  · rcases hc with rfl | rfl <;> decide
  · rcases hc with rfl | rfl <;> decide
  · rcases hc with rfl | rfl <;> decide
  · intro hmem
    obtain ⟨b, -, hb⟩ := mem_flatMap.mp hmem
    exact not_mem_hexEscape hc b hb
  · intro hmem
    have hd := mem_singleton.mp hmem
    rcases hc with rfl | rfl
    · exact hfeed hd.symm
    · exact hreturn hd.symm

lemma not_mem_execStart {c : Char} (hc : c = '\n' ∨ c = '\r') (spec : ServiceSpec) :
    c ∉ execStart spec := by
  have hargument : ∀ path : Text, c ∉ quoteSystemdArgument path := by
    intro path hmem
    rw [quoteSystemdArgument, cons_append, mem_cons, mem_append, mem_singleton] at hmem
    rcases hmem with hquote | hbody | hquote
    · rcases hc with rfl | rfl <;> cases hquote
    · obtain ⟨d, -, hd⟩ := mem_flatMap.mp hbody
      exact not_mem_quoteSystemdChar hc d hd
    · rcases hc with rfl | rfl <;> cases hquote
  have hspace : c ≠ ' ' := by rcases hc with rfl | rfl <;> decide
  rw [execStart_eq]
  simp only [mem_append, mem_cons, not_mem_nil, hargument, hspace, or_false, not_false_eq_true]

variable {spec : ServiceSpec}

lemma renderUnit_eq (h : spec.validate = .ok ()) :
    renderUnit spec = .ok (unitFront ++ '\n' :: (("ExecStart=".toList ++ execStart spec) ++
      '\n' :: unitBack)) := by
  rw [renderUnit, h]
  rfl

lemma execStartValues_renderUnit {unit : Text} (h : renderUnit spec = .ok unit) :
    execStartValues unit = [execStart spec] := by
  have hvalid : spec.validate = .ok () := by
    rw [renderUnit] at h
    cases hvalidate : spec.validate with
    | ok value => rfl
    | error message =>
      rw [hvalidate] at h
      cases h
  rw [renderUnit_eq hvalid] at h
  cases h
  have hline : '\n' ∉ "ExecStart=".toList ++ execStart spec := by
    rw [mem_append, not_or]
    exact ⟨by decide, not_mem_execStart (.inl rfl) spec⟩
  have hfront : (unitFront.splitOn '\n').filterMap (fun line =>
      if "ExecStart=".toList.isPrefixOf line then some (line.drop "ExecStart=".length) else none) =
        [] := by decide
  have hback : (unitBack.splitOn '\n').filterMap (fun line =>
      if "ExecStart=".toList.isPrefixOf line then some (line.drop "ExecStart=".length) else none) =
        [] := by decide
  have hprefix : "ExecStart=".toList.isPrefixOf ("ExecStart=".toList ++ execStart spec) = true :=
    isPrefixOf_iff_prefix.mpr (prefix_append _ _)
  rw [execStartValues, splitOn_append_cons_self, filterMap_append, hfront,
    splitOn_append_cons_self_of_not_mem hline, filterMap_cons, if_pos hprefix, hback]
  exact congrArg (fun value => [value]) drop_left

/-! ## §4 Arguments of Windows -/

/-- Arguments by Windows' rules: the word that is being read, whether it is inside quotes, and how
many backslashes stand before what comes next. -/
def splitFrom : Option Text → Bool → ℕ → Text → List Text
  | none, _, backslashes, [] => if backslashes = 0 then [] else [replicate backslashes '\\']
  | some word, _, backslashes, [] => [word ++ replicate backslashes '\\']
  | word, inQuotes, backslashes, c :: rest =>
    if c = '\\' then splitFrom word inQuotes (backslashes + 1) rest
    else if c = '"' then
      -- 2n backslashes before a quote give n, and one more makes the quote literal
      if backslashes % 2 = 0 then
        splitFrom (some (word.getD [] ++ replicate (backslashes / 2) '\\')) (!inQuotes) 0 rest
      else
        splitFrom (some (word.getD [] ++ replicate (backslashes / 2) '\\' ++ ['"'])) inQuotes 0
          rest
    else if !inQuotes ∧ (c = ' ' ∨ c = '\t') then
      if word = none ∧ backslashes = 0 then splitFrom none false 0 rest
      else (word.getD [] ++ replicate backslashes '\\') :: splitFrom none false 0 rest
    else splitFrom (some (word.getD [] ++ replicate backslashes '\\' ++ [c])) inQuotes 0 rest

def splitArguments (t : Text) : List Text := splitFrom none false 0 t

lemma splitFrom_backslashes (word : Option Text) (inQuotes : Bool) (read n : ℕ) (rest : Text) :
    splitFrom word inQuotes read (replicate n '\\' ++ rest) =
      splitFrom word inQuotes (read + n) rest := by
  induction n generalizing read with
  | zero => rfl
  | succ n ih =>
    rw [replicate_succ, cons_append, splitFrom, if_pos rfl, ih, Nat.add_assoc, Nat.add_comm 1 n]

/-- The body of a quoted argument is read back with the backslashes that were held back. -/
theorem splitFrom_quoteWindowsBody (word value rest : Text) (n : ℕ) :
    splitFrom (some word) true 0 (quoteWindowsBody n value ++ '"' :: rest) =
      splitFrom (some (word ++ replicate n '\\' ++ value)) false 0 rest := by
  induction value generalizing word n with
  | nil =>
    rw [quoteWindowsBody, splitFrom_backslashes, splitFrom, if_neg (by decide), if_pos rfl,
      if_pos (by omega)]
    simp
  | cons c value ih =>
    rw [quoteWindowsBody]
    split
    · next hc =>
      rw [ih, hc, replicate_succ']
      simp
    · next hback =>
      split
      · next hc =>
        rw [append_assoc, splitFrom_backslashes, cons_append, splitFrom,
          if_neg (by decide), if_pos rfl, if_neg (by omega), ih, hc]
        have hhalf : (0 + (n * 2 + 1)) / 2 = n := by omega
        rw [hhalf]
        simp
      · next hquote =>
        rw [append_assoc, splitFrom_backslashes, cons_append, splitFrom, if_neg hback,
          if_neg hquote, if_neg (by simp), ih]
        simp

lemma splitArguments_quoted (value rest : Text) :
    splitArguments (quoteWindowsArgument value ++ ' ' :: rest) = value :: splitArguments rest := by
  rw [splitArguments, quoteWindowsArgument, cons_append, cons_append, append_assoc,
    singleton_append, splitFrom, if_neg (by decide), if_pos rfl, if_pos rfl]
  show splitFrom (some []) true 0 (quoteWindowsBody 0 value ++ '"' :: ' ' :: rest) = _
  rw [splitFrom_quoteWindowsBody, splitFrom, if_neg (by decide), if_neg (by decide),
    if_pos (by simp), if_neg (by simp)]
  simp [splitArguments]

/-- A character that a word takes as it is. -/
def IsPlain (c : Char) : Prop := c ≠ '\\' ∧ c ≠ '"' ∧ c ≠ ' ' ∧ c ≠ '\t'

instance (c : Char) : Decidable (IsPlain c) := inferInstanceAs (Decidable (_ ∧ _))

lemma splitFrom_plain {plain : Text} (hplain : ∀ c ∈ plain, IsPlain c) (word rest : Text) :
    splitFrom (some word) false 0 (plain ++ rest) =
      splitFrom (some (word ++ plain)) false 0 rest := by
  induction plain generalizing word with
  | nil => rw [append_nil]; rfl
  | cons c plain ih =>
    obtain ⟨⟨hback, hquote, hspace, htab⟩, hrest⟩ := forall_mem_cons.mp hplain
    rw [cons_append, splitFrom, if_neg hback, if_neg hquote, if_neg (by simp [hspace, htab]),
      ih hrest]
    simp

/-- A plain argument and a space are one word. -/
theorem splitArguments_plain {first : Char} {plain : Text}
    (hplain : ∀ c ∈ first :: plain, IsPlain c) (rest : Text) :
    splitArguments (first :: plain ++ ' ' :: rest) = (first :: plain) :: splitArguments rest := by
  obtain ⟨⟨hback, hquote, hspace, htab⟩, hrest⟩ := forall_mem_cons.mp hplain
  rw [splitArguments, cons_append, splitFrom, if_neg hback, if_neg hquote,
    if_neg (by simp [hspace, htab])]
  show splitFrom (some [first]) false 0 (plain ++ ' ' :: rest) = _
  rw [splitFrom_plain hrest, splitFrom, if_neg (by decide), if_neg (by decide), if_pos (by simp),
    if_neg (by simp)]
  simp [splitArguments]

/-- The arguments of the task are split back. -/
theorem splitArguments_fields (config dataDir : Text) :
    splitArguments (joinWith [' '] ["--config".toList, quoteWindowsArgument config,
      "--data-dir".toList, quoteWindowsArgument dataDir, "serve".toList]) =
    ["--config".toList, config, "--data-dir".toList, dataDir, "serve".toList] := by
  have hjoin : joinWith [' '] ["--config".toList, quoteWindowsArgument config,
      "--data-dir".toList, quoteWindowsArgument dataDir, "serve".toList] =
        "--config".toList ++ ' ' :: (quoteWindowsArgument config ++ ' ' ::
          ("--data-dir".toList ++ ' ' :: (quoteWindowsArgument dataDir ++ ' ' ::
            "serve".toList))) := by
    simp [joinWith]
  rw [hjoin]
  rw [show "--config".toList = '-' :: "-config".toList from rfl,
    show "--data-dir".toList = '-' :: "-data-dir".toList from rfl,
    splitArguments_plain (by decide), splitArguments_quoted, splitArguments_plain (by decide),
    splitArguments_quoted]
  rfl

/-! ## §5 Text of an element -/

/-- The predefined entities. -/
def entity (name : Text) : Option Char :=
  [("amp".toList, '&'), ("lt".toList, '<'), ("gt".toList, '>'), ("quot".toList, '"'),
    ("apos".toList, '\'')].lookup name

/-- A text with its entities decoded; `name` is what has been read of an entity. -/
def xmlDecodeFrom : Option Text → Text → Text
  | none, [] => []
  | some name, [] => '&' :: name
  | none, c :: rest =>
    if c = '&' then xmlDecodeFrom (some []) rest else c :: xmlDecodeFrom none rest
  | some name, c :: rest =>
    if c = ';' then
      (match entity name with
        | some d => [d]
        | none => '&' :: name ++ [';']) ++ xmlDecodeFrom none rest
    else xmlDecodeFrom (some (name ++ [c])) rest

def xmlDecode (t : Text) : Text := xmlDecodeFrom none t

lemma xmlDecodeFrom_xmlEscapeChar (c : Char) (rest : Text) :
    xmlDecodeFrom none (xmlEscapeChar c ++ rest) = c :: xmlDecodeFrom none rest := by
  unfold xmlEscapeChar
  split
  · next hc => rw [hc]; rfl
  split
  · next hc => rw [hc]; rfl
  split
  · next hc => rw [hc]; rfl
  split
  · next hc => rw [hc]; rfl
  split
  · next hc => rw [hc]; rfl
  · next hamp _ _ _ _ => rw [singleton_append, xmlDecodeFrom, if_neg hamp]

lemma xmlDecode_xmlEscape (value : Text) : xmlDecode (xmlEscape value) = value := by
  induction value with
  | nil => rfl
  | cons c value ih =>
    rw [xmlEscape, flatMap_cons, xmlDecode, xmlDecodeFrom_xmlEscapeChar]
    exact congrArg (c :: ·) ih

/-! ## §6 Exactness -/

/-- The unit has one command, on one line, and systemd reads the given paths in it. -/
def UnitNamesPaths (spec : ServiceSpec) : Prop :=
  ∃ unit value, renderUnit spec = .ok unit ∧ execStartValues unit = [value] ∧
    '\n' ∉ value ∧ '\r' ∉ value ∧
    readExecStart value = some ([spec.executable, "--config".toList, spec.config,
      "--data-dir".toList, spec.dataDir, "serve".toList].map utf8)

/-- The task's command and arguments are the given paths, also after decoding the XML. -/
def TaskNamesPaths (isAbsolute : Text → Bool) (spec : ServiceSpec) : Prop :=
  ∃ arguments, taskActionFields isAbsolute spec = .ok (spec.executable, arguments) ∧
    splitArguments arguments =
      ["--config".toList, spec.config, "--data-dir".toList, spec.dataDir, "serve".toList] ∧
    xmlDecode (xmlEscape spec.executable) = spec.executable ∧
    xmlDecode (xmlEscape arguments) = arguments

lemma validate_of_absolute (h : ∀ p ∈ spec.labelled, isAbsolute p.2 = true) :
    spec.validate = .ok () := by
  have hnone : (spec.labelled.find? fun p => !isAbsolute p.2) = none := by
    rw [find?_eq_none]
    intro p hp
    simp [h p hp]
  rw [ServiceSpec.validate, hnone]

/-- The unit names the given paths exactly when the executable's path has no dollar sign, and the
task always does. -/
theorem definitions_exact_iff (spec : ServiceSpec) (absolute : Text → Bool) :
    ((∀ p ∈ spec.labelled, isAbsolute p.2 = true) →
      (UnitNamesPaths spec ↔ '$' ∉ spec.executable)) ∧
    ((∀ p ∈ spec.labelled, (absolute p.2 || isWindowsAbsolute p.2) = true) →
      TaskNamesPaths absolute spec) := by
  constructor
  · intro habsolute
    have hvalid := validate_of_absolute habsolute
    have hunit := renderUnit_eq hvalid
    rw [← double_eq_self_iff]
    constructor
    · rintro ⟨unit, value, hrender, hvalues, -, -, hread⟩
      rw [execStartValues_renderUnit hrender] at hvalues
      cases hvalues
      rw [readExecStart_execStart] at hread
      injection hread with hread
      exact utf8_injective (cons.inj hread).1
    · intro hdollar
      refine ⟨_, execStart spec, hunit, execStartValues_renderUnit hunit,
        not_mem_execStart (Or.inl rfl) spec, not_mem_execStart (Or.inr rfl) spec, ?_⟩
      rw [readExecStart_execStart, hdollar]
  · intro habsolute
    have htext : ∀ (label : String) (p : String × Text), p ∈ spec.labelled →
        absolutePathText absolute p.2 label = .ok p.2 := by
      intro label p hp
      have hp' := habsolute p hp
      rw [absolutePathText, if_neg]
      simpa [Bool.or_eq_true, imp_iff_not_or] using hp'
    refine ⟨_, ?_, splitArguments_fields spec.config spec.dataDir, xmlDecode_xmlEscape _,
      xmlDecode_xmlEscape _⟩
    rw [taskActionFields,
      htext "executable" ("executable", spec.executable) (by simp [ServiceSpec.labelled]),
      htext "configuration file" ("configuration", spec.config) (by simp [ServiceSpec.labelled]),
      htext "data directory" ("data directory", spec.dataDir) (by simp [ServiceSpec.labelled])]
    rfl

/-- A service whose executable is under a directory with a dollar sign. -/
def dollarSpec : ServiceSpec where
  executable := "/opt/$kwiry/kwiry".toList
  config := "/etc/kwiry $1/config.toml".toList
  dataDir := "/var/lib/kwiry".toList

/-- systemd would start `/opt/$$kwiry/kwiry`. -/
theorem dollarSpec_not_named :
    readExecStart (execStart dollarSpec) = some (["/opt/$$kwiry/kwiry", "--config",
      "/etc/kwiry $1/config.toml", "--data-dir", "/var/lib/kwiry", "serve"].map
        fun word => utf8 word.toList) ∧
      ¬ UnitNamesPaths dollarSpec := by
  refine ⟨by decide +kernel, fun hnames => ?_⟩
  obtain ⟨unit, value, hrender, hvalues, -, -, hread⟩ := hnames
  rw [execStartValues_renderUnit hrender] at hvalues
  cases hvalues
  revert hread
  decide +kernel

/-- A service on a share, in directories with quotes and with backslashes before them. -/
def shareSpec : ServiceSpec where
  executable := "C:\\Program Files\\kwiry.exe".toList
  config := "\\\\server\\a\\\"b\"\\config.toml".toList
  dataDir := "C:\\data\\".toList

theorem definitions_exact_iff_dollarSpec :
    (UnitNamesPaths dollarSpec ↔ '$' ∉ dollarSpec.executable) ∧
      TaskNamesPaths (fun _ => false) shareSpec :=
  ⟨(definitions_exact_iff dollarSpec fun _ => false).1 (by decide),
    (definitions_exact_iff shareSpec fun _ => false).2 (by decide)⟩

end Kwiry.Service
