import ImplFamilies.Proofs.Grammar.Lexeme
import ImplFamilies.Grammar.Types
import ImplFamilies.Signature.Tree
import ImplFamilies.Text.Joined

/-!
The grammar of signatures as relations over lexemes, free of any order between alternatives. A
phrase stands between two places of a text and has a value; the grammar is ambiguous, so one text
may have several. Which words may be names is a parameter.
-/

namespace ImplFamilies.Grammar

/-- What stands between a place and a later one, with its value. -/
abbrev Phrase (α : Type) := List Lexeme → α → List Lexeme → Prop

namespace Phrase

inductive Token (l : Lexeme) : Phrase Unit
  | read {ts : List Lexeme} : Token l (l :: ts) () ts

inductive Lifetime : Phrase String
  | read {name : String} {ts : List Lexeme} : Lifetime (.lifetime name :: ts) name ts

variable {α : Type}

inductive Optional (p : Phrase α) : Phrase (Option α)
  | absent {ts : List Lexeme} : Optional p ts none ts
  | present {ts rest : List Lexeme} {a : α} (read : p ts a rest) : Optional p ts (some a) rest

inductive After (text : String) (p : Phrase α) : Phrase α
  | read {ts rest : List Lexeme} {a : α} (behind : p ts a rest) :
      After text p (.mark text :: ts) a rest

inductive Separated (item : Phrase α) (separator : String) : Phrase (List α)
  | last {ts rest : List Lexeme} {a : α} (only : item ts a rest) :
      Separated item separator ts [a] rest
  | more {ts mid rest : List Lexeme} {a : α} {as : List α}
      (first : item ts a (.mark separator :: mid)) (others : Separated item separator mid as rest) :
      Separated item separator ts (a :: as) rest

theorem Separated.map {β : Type} {item : Phrase β} {f : α → β} {separator : String}
    {ts rest : List Lexeme} {as : List α}
    (h : Separated (fun ts a rest => item ts (f a) rest) separator ts as rest) :
    Separated item separator ts (as.map f) rest := by
  induction h with
  | last only => exact .last only
  | more first others ih => exact .more first ih

/-- At least one item, commas between them, and one more comma behind the last if it is there. -/
inductive CommaList₁ (item : Phrase α) : Phrase (List α)
  | closed {ts rest : List Lexeme} {as : List α} (items : Separated item "," ts as rest) :
      CommaList₁ item ts as rest
  | trailing {ts rest : List Lexeme} {as : List α}
      (items : Separated item "," ts as (.mark "," :: rest)) : CommaList₁ item ts as rest

inductive CommaList (item : Phrase α) : Phrase (List α)
  | empty {ts : List Lexeme} : CommaList item ts [] ts
  | items {ts rest : List Lexeme} {as : List α} (some : CommaList₁ item ts as rest) :
      CommaList item ts as rest

inductive Modifiers : Phrase (List String)
  | none {ts : List Lexeme} : Modifiers ts [] ts
  | more {l : Lexeme} {ts rest : List Lexeme} {words : List String}
      (modifier : l = .word "unsafe" ∨ l = .word "extern" ∨ l = .mark "\"C\"")
      (others : Modifiers ts words rest) : Modifiers (l :: ts) (l.text :: words) rest

/-- The number of elements of an array. -/
inductive Size : Phrase UInt64
  | read {digits : String} {size : UInt64} {ts : List Lexeme}
      (number : digits.toList.all Char.isDigit = true)
      (value : Rule.numeral digits.toList = size.toNat) : Size (.word digits :: ts) size ts

end Phrase

open Phrase

def joinedWords (separator : String) (words : List String) : String :=
  String.ofList (Text.joined separator (words.map String.toList))

theorem ofList_joined (separator : String) (words : List (List Char)) :
    String.ofList (Text.joined separator words) =
      joinedWords separator (words.map String.ofList) := by
  have id : String.toList ∘ String.ofList = id := funext fun _ => String.toList_ofList
  rw [joinedWords, List.map_map, id, List.map_id]

section

variable (names : String → Prop)

inductive DerivesName : Phrase String
  | word {text : String} {ts : List Lexeme} (named : names text) :
      DerivesName (.word text :: ts) text ts
  | dots {ts : List Lexeme} : DerivesName (.mark "..." :: ts) "..." ts

inductive DerivesSegments : Phrase String
  | read {ts rest : List Lexeme} {parts : List String}
      (parted : Separated (DerivesName names) "::" ts parts rest) :
      DerivesSegments ts (joinedWords "::" parts) rest

mutual

inductive DerivesTy : Spot → Phrase Ty
  | never {ts : List Lexeme} : DerivesTy .plain (.mark "!" :: ts) .never ts
  | path {ts rest : List Lexeme} {p : TypePath} (read : DerivesPath ts p rest) :
      DerivesTy .plain ts (.path p) rest
  | tuple {ts rest : List Lexeme} {xs : List Ty}
      (elements : CommaList (DerivesTy .full) ts xs (.mark ")" :: rest)) :
      DerivesTy .plain (.mark "(" :: ts) (.tuple xs) rest
  | array {ts mid rest : List Lexeme} {x : Ty} {size : UInt64}
      (element : DerivesTy .full ts x (.mark ";" :: mid))
      (length : Size mid size (.mark "]" :: rest)) :
      DerivesTy .plain (.mark "[" :: ts) (.array x size) rest
  | slice {ts rest : List Lexeme} {x : Ty}
      (element : DerivesTy .full ts x (.mark "]" :: rest)) :
      DerivesTy .plain (.mark "[" :: ts) (.slice x) rest
  | mutPointer {ts rest : List Lexeme} {x : Ty} (element : DerivesTy .plain ts x rest) :
      DerivesTy .plain (.mark "*" :: .word "mut" :: ts) (.pointer true x) rest
  | constPointer {ts rest : List Lexeme} {x : Ty} (element : DerivesTy .plain ts x rest) :
      DerivesTy .plain (.mark "*" :: .word "const" :: ts) (.pointer false x) rest
  | reference {ts mid after rest : List Lexeme} {name : Option String} {mutable : Option Unit}
      {x : Ty} (lifetime : Optional Lifetime ts name mid)
      («mut» : Optional (Token (.word "mut")) mid mutable after)
      (element : DerivesTy .plain after x rest) :
      DerivesTy .plain (.mark "&" :: ts) (.reference name mutable.isSome x) rest
  | single {opener : Opener} {ts rest : List Lexeme} {b : TraitBound}
      (bound : DerivesTraitBound ts b rest) :
      DerivesTy .plain (.word opener.word :: ts) (.single opener b) rest
  /-- A single trait bound has a form of its own. -/
  | bounded {opener : Opener} {ts rest : List Lexeme} {bs : List Bound}
      (bounds : Separated DerivesBound "+" ts bs rest) (several : ∀ b, bs ≠ [.trait b]) :
      DerivesTy .full (.word opener.word :: ts) (.bounded opener bs) rest
  | unbounded {ts rest : List Lexeme} {t : Ty} (plain : DerivesTy .plain ts t rest) :
      DerivesTy .full ts t rest

inductive DerivesPath : Phrase TypePath
  | fn {ts named opened closed rest : List Lexeme} {words : List String} {name : String}
      {inputs : List Ty} {output : Option Ty} (modifiers : Modifiers ts words named)
      (segments : DerivesSegments names named name (.mark "(" :: opened))
      (parameters : CommaList (DerivesTy .full) opened inputs (.mark ")" :: closed))
      (result : Optional (After "->" (DerivesTy .full)) closed output rest) :
      DerivesPath ts (.fn (joinedWords " " words) name inputs output) rest
  | plain {ts mid rest : List Lexeme} {name : String} {as : Option (List Arg)}
      (segments : DerivesSegments names ts name mid) (args : Optional DerivesArgs mid as rest) :
      DerivesPath ts (.plain name as) rest

inductive DerivesArgs : Phrase (List Arg)
  | empty {ts : List Lexeme} : DerivesArgs (.mark "<" :: .mark ">" :: ts) [] ts
  | items {ts rest : List Lexeme} {as : List Arg}
      (some : CommaList₁ DerivesArg ts as (.mark ">" :: rest)) :
      DerivesArgs (.mark "<" :: ts) as rest

inductive DerivesArg : Phrase Arg
  | lifetime {ts rest : List Lexeme} {name : String} (read : Lifetime ts name rest) :
      DerivesArg ts (.lifetime name) rest
  | type {ts rest : List Lexeme} {t : Ty} (read : DerivesTy .full ts t rest) :
      DerivesArg ts (.type t) rest

inductive DerivesBound : Phrase Bound
  | lifetime {ts rest : List Lexeme} {name : String} (read : Lifetime ts name rest) :
      DerivesBound ts (.lifetime name) rest
  | trait {ts rest : List Lexeme} {b : TraitBound} (read : DerivesTraitBound ts b rest) :
      DerivesBound ts (.trait b) rest

inductive DerivesTraitBound : Phrase TraitBound
  | read {ts mid rest : List Lexeme} {question : Option Unit} {p : TypePath}
      (mark : Optional (Token (.mark "?")) ts question mid) (path : DerivesPath mid p rest) :
      DerivesTraitBound ts (.mk question.isSome p) rest

end

abbrev DerivesBounds : Phrase (List Bound) :=
  Separated (DerivesBound names) "+"

abbrev DerivesLifetimeBounds : Phrase (List String) :=
  Separated Lifetime "+"

inductive DerivesParam : Phrase Param
  | lifetime {ts mid rest : List Lexeme} {name : String} {bounds : Option (List String)}
      (read : Lifetime ts name mid)
      (listed : Optional (After ":" DerivesLifetimeBounds) mid bounds rest) :
      DerivesParam ts (.lifetime name (bounds.getD [])) rest
  | type {ts mid after rest : List Lexeme} {name : String} {bounds : Option (List Bound)}
      {default : Option Ty} (read : DerivesName names ts name mid)
      (listed : Optional (After ":" (DerivesBounds names)) mid bounds after)
      (given : Optional (After "=" (DerivesTy names .full)) after default rest) :
      DerivesParam ts (.type name (bounds.getD []) default) rest

inductive DerivesGenerics : Phrase (List Param)
  | read {ts rest : List Lexeme} {params : List Param}
      (listed : CommaList (DerivesParam names) ts params (.mark ">" :: rest)) :
      DerivesGenerics (.mark "<" :: ts) params rest

inductive DerivesWhereItem : Phrase Param
  | lifetime {ts mid rest : List Lexeme} {name : String} {bounds : List String}
      (read : Lifetime ts name mid) (listed : After ":" DerivesLifetimeBounds mid bounds rest) :
      DerivesWhereItem ts (.lifetime name bounds) rest
  | type {ts mid rest : List Lexeme} {name : String} {bounds : List Bound}
      (read : DerivesName names ts name mid)
      (listed : After ":" (DerivesBounds names) mid bounds rest) :
      DerivesWhereItem ts (.type name bounds none) rest

inductive DerivesWhere : Phrase (List Param)
  | read {ts rest : List Lexeme} {items : List Param}
      (listed : CommaList (DerivesWhereItem names) ts items rest) :
      DerivesWhere (.word "where" :: ts) items rest

/-- A whole text is a signature, of a trait or an inherent one. -/
inductive DerivesSignature : Phrase Signature
  | trait {ts opened typed named self after rest : List Lexeme} {mark negation : Option Unit}
      {params : Option (List Param)} {p : TypePath} {t : Ty} {clause : Option (List Param)}
      (marked : Optional (Token (.word "unsafe")) ts mark (.word "impl" :: opened))
      (generics : Optional (DerivesGenerics names) opened params typed)
      (negated : Optional (Token (.mark "!")) typed negation named)
      (path : DerivesPath names named p (.word "for" :: self))
      (type : DerivesTy names .full self t after)
      («where» : Optional (DerivesWhere names) after clause rest) :
      DerivesSignature ts
        { generics := params.getD []
          isUnsafe := mark.isSome
          negated := negation.isSome
          traitRef := some p
          selfTy := t
          whereClause := clause } rest
  | inherent {opened self after rest : List Lexeme} {params : Option (List Param)} {t : Ty}
      {clause : Option (List Param)}
      (generics : Optional (DerivesGenerics names) opened params self)
      (type : DerivesTy names .full self t after)
      («where» : Optional (DerivesWhere names) after clause rest) :
      DerivesSignature (.word "impl" :: opened)
        { generics := params.getD []
          isUnsafe := false
          negated := false
          traitRef := none
          selfTy := t
          whereClause := clause } rest

end

end ImplFamilies.Grammar
