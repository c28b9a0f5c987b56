import Kwiry.Model

/-!
# XML of Office Packages

`docx/xml.rs`: the events of a part, and the two ways its readers consume them. The reader itself
is given. What is asked of it is what the source states: a budget decides how far a part is read
and not what is read of it, and a part that is read to its end has an element.
-/

namespace Kwiry.Docx

open Foundations List

inductive DocxError where
  | invalidPackage
  | integrityFailed
  | requiredPartInvalid
  | packageLimitExceeded
  | xmlLimitExceeded
  | forbiddenXmlConstruct
  | encryptedPackage
  | unsupportedCompression
  | unsupportedXmlEncoding
  deriving DecidableEq

/-- An element with its resolved namespace. Names are UTF-8, and kept as texts. -/
structure XmlElement where
  nameSpace : Option Text
  localName : Text
  attributes : List (Text × Text)
  deriving DecidableEq

inductive XmlEvent where
  | start (element : XmlElement)
  | empty (element : XmlElement)
  | stop (nameSpace : Option Text) (localName : Text)
  | text (text : Text)
  deriving DecidableEq

/-- The element an event opens. -/
def XmlEvent.element : XmlEvent → Option XmlElement
  | .start element | .empty element => some element
  | _ => none

/-- A reader of parts: the events it delivers under a budget, and what is left of the budget or the
error it stops with. -/
structure XmlReader where
  Budget : Type
  fresh : Budget
  events : Bytes → Budget → List XmlEvent × Except DocxError Budget
  /-- A smaller budget only ends the events sooner. -/
  budget_free : ∀ bytes budget budget',
    (events bytes budget).1 <+: (events bytes budget').1 ∨
      (events bytes budget').1 <+: (events bytes budget).1
  /-- A part without an element is refused. -/
  rooted : ∀ bytes budget budget', (events bytes budget).2 = .ok budget' →
    (events bytes budget).1.filterMap XmlEvent.element ≠ []

variable (R : XmlReader) {S : Type}

/-- Hands on the events of a part, until one is refused. -/
def parseXmlEvents (bytes : Bytes) (budget : R.Budget) (state : S)
    (onEvent : S → XmlEvent → Except DocxError S) : Except DocxError (S × R.Budget) := do
  let state ← (R.events bytes budget).1.foldlM onEvent state
  let budget ← (R.events bytes budget).2
  return (state, budget)

/-- Hands on the elements of a part. -/
def parseXml (bytes : Bytes) (budget : R.Budget) (state : S)
    (onElement : S → XmlElement → Except DocxError S) : Except DocxError (S × R.Budget) :=
  parseXmlEvents R bytes budget state fun state event =>
    match event.element with
    | some element => onElement state element
    | none => .ok state

/-! ## §1 Roots -/

/-- The first element a part delivers has this name. -/
def ReadsRoot (bytes : Bytes) (name : Text) : Prop :=
  ∃ budget element rest, (R.events bytes budget).1.filterMap XmlEvent.element = element :: rest ∧
    element.localName = name

variable {R} {bytes : Bytes} {budget budget' : R.Budget}

lemma ReadsRoot.unique {name name' : Text} (h : ReadsRoot R bytes name)
    (h' : ReadsRoot R bytes name') : name = name' := by
  obtain ⟨budget, element, rest, helements, hname⟩ := h
  obtain ⟨budget', element', rest', helements', hname'⟩ := h'
  -- one of the two deliveries begins the other
  have hsame : element = element' := by
    rcases R.budget_free bytes budget budget' with hprefix | hprefix
    · have helementsPrefix := hprefix.filterMap XmlEvent.element
      rw [helements, helements', cons_prefix_cons] at helementsPrefix
      exact helementsPrefix.1
    · have helementsPrefix := hprefix.filterMap XmlEvent.element
      rw [helements, helements', cons_prefix_cons] at helementsPrefix
      exact helementsPrefix.1.symm
  rw [← hname, ← hname', hsame]

/-- Events without an element are passed over. -/
theorem foldlM_elements (onElement : S → XmlElement → Except DocxError S)
    (events : List XmlEvent) (state : S) :
    events.foldlM (fun state event =>
        match event.element with
        | some element => onElement state element
        | none => .ok state) state =
      (events.filterMap XmlEvent.element).foldlM onElement state := by
  induction events generalizing state with
  | nil => rfl
  | cons event rest ih =>
    rw [foldlM_cons, filterMap_cons]
    cases event.element with
    | none => exact ih state
    | some element =>
      rw [foldlM_cons]
      simp only [ih]

variable {onElement : S → XmlElement → Except DocxError S}

lemma parseXml_ok_iff {state state' : S} :
    parseXml R bytes budget state onElement = .ok (state', budget') ↔
      ((R.events bytes budget).1.filterMap XmlEvent.element).foldlM onElement state = .ok state' ∧
        (R.events bytes budget).2 = .ok budget' := by
  rw [parseXml, parseXmlEvents, foldlM_elements]
  cases ((R.events bytes budget).1.filterMap XmlEvent.element).foldlM onElement state with
  | error e => simp [bind, Except.bind]
  | ok result =>
    cases hstop : (R.events bytes budget).2 <;>
      simp [bind, Except.bind, pure, Except.pure]

/-- A part that is read to its end has a first element, and the reader accepted it. -/
theorem readsRoot_of_parseXml {state state' : S}
    (h : parseXml R bytes budget state onElement = .ok (state', budget')) {name : Text}
    (hroot : ∀ element next, onElement state element = .ok next → element.localName = name) :
    ReadsRoot R bytes name := by
  rw [parseXml_ok_iff] at h
  obtain ⟨hfold, hstop⟩ := h
  cases helements : (R.events bytes budget).1.filterMap XmlEvent.element with
  | nil => exact absurd helements (R.rooted bytes budget budget' hstop)
  | cons element rest =>
    rw [helements, foldlM_cons] at hfold
    cases hfirst : onElement state element with
    | error e =>
      rw [hfirst] at hfold
      cases hfold
    | ok next => exact ⟨budget, element, rest, helements, hroot element next hfirst⟩

/-! ## §2 Known documents -/

def renderAttributes (attributes : List (Text × Text)) : Text :=
  attributes.flatMap fun entry => ' ' :: entry.1 ++ "=\"".toList ++ entry.2 ++ ['"']

/-- The text of an event. Names have no prefix. -/
def XmlEvent.render : XmlEvent → Text
  | .start element => '<' :: element.localName ++ renderAttributes element.attributes ++ ['>']
  | .empty element => '<' :: element.localName ++ renderAttributes element.attributes ++ "/>".toList
  | .stop _ localName => "</".toList ++ localName ++ ['>']
  | .text content => content

def renderXml (events : List XmlEvent) : Text :=
  events.flatMap XmlEvent.render

/-- An element below others, with attributes only. -/
def leafElement (nameSpace : Text) (localName : String) (attributes : List (String × Text)) :
    XmlEvent :=
  .empty ⟨some nameSpace, localName.toList, attributes.map fun entry => (entry.1.toList, entry.2)⟩

/-- A document in one namespace. -/
def documentOf (nameSpace : Text) (root : String) (attributes : List (String × Text))
    (content : List XmlEvent) : List XmlEvent :=
  .start ⟨some nameSpace, root.toList, ("xmlns".toList, nameSpace) ::
      attributes.map fun entry => (entry.1.toList, entry.2)⟩ ::
    content ++ [.stop (some nameSpace) root.toList]

/-- A reader that knows the texts of some documents. -/
def knownReader (documents : List (List XmlEvent)) : XmlReader where
  Budget := Unit
  fresh := ()
  events bytes _ :=
    match documents.find? fun events => utf8 (renderXml events) = bytes with
    | some events =>
      if events.filterMap XmlEvent.element = [] then ([], .error .requiredPartInvalid)
      else (events, .ok ())
    | none => ([], .error .requiredPartInvalid)
  budget_free := fun _ _ _ => .inl (prefix_refl _)
  rooted := by
    intro bytes budget budget' hok
    split at hok
    next =>
      split at hok
      next => cases hok
      next hne =>
        rw [if_neg hne]
        exact hne
    next => cases hok

end Kwiry.Docx
