import Schemata.Proofs.Model.Way
import Schemata.Proofs.Naming.TypeName
import Schemata.Proofs.Text.PascalCase

namespace Schemata

/-! Names that are made from naming contexts: the name of a declaration and the way that leads
from there. A context is cased once more as a whole, which leaves it as it is just when it is
in Pascal case already. -/

def namingContext (owner : String) (way : List String) : String :=
  owner ++ String.join way

structure NamedAfter (owner : String) (way : List String) (name : String) : Prop where
  numbered : IsNumbered (typeName (namingContext owner way)) name
  kept : Text.IsAlphanumericText (namingContext owner way).toList →
    (typeName (namingContext owner way) = namingContext owner way ↔
      Text.IsPascalCase (namingContext owner way).toList)
  continues : Text.IsAlphanumericText (namingContext owner way).toList →
    Text.IsPascalCase (namingContext owner way).toList →
    IsNumbered (namingContext owner way) name ∧ owner.toList <+: name.toList
  /-- An ASCII name always goes on from its owner's, but for the case of the letters. -/
  caseless : Text.IsAsciiText (namingContext owner way).toList →
    owner.toList.map Char.toLower <+: name.toList.map Char.toLower

variable {owner name context : String} {way : List String}

theorem IsNumbered.isPrefix (numbered : IsNumbered context name) :
    context.toList <+: name.toList := by
  rcases numbered with rfl | ⟨number, -, -, rfl⟩
  · exact List.prefix_refl _
  · rw [suffixed, String.toList_append]
    exact List.prefix_append _ _

theorem owner_isPrefix (owner : String) (way : List String) :
    owner.toList <+: (namingContext owner way).toList := by
  rw [namingContext, String.toList_append]
  exact List.prefix_append _ _

/-! Type names do not begin with digits, so contexts do not either. -/

theorem IsTypeName.beginsPlain_context (named : IsTypeName owner) :
    Text.BeginsPlain (namingContext owner way).toList := by
  obtain ⟨first, rest, split⟩ := List.exists_cons_of_ne_nil named.nonempty
  have plain := named.not_digit
  rw [split] at plain
  rw [namingContext, String.toList_append, split]
  exact plain

theorem typeName_of_plain (letters : Text.IsAlphanumericText context.toList)
    (nonempty : context.toList ≠ []) (plain : Text.BeginsPlain context.toList) :
    typeName context = Text.pascalCase context := by
  have begins := Text.beginsPlain_pascalCase letters nonempty plain
  unfold typeName
  apply if_neg
  rw [Bool.not_eq_true, Option.any_eq_false]
  exact begins

/-! The name at the end of a way from a declaration. -/

theorem IsTypeName.nonempty_context (named : IsTypeName owner) :
    (namingContext owner way).toList ≠ [] := by
  rw [namingContext, String.toList_append]
  exact List.append_ne_nil_of_left_ne_nil named.nonempty _

theorem IsTypeName.typeName_context (named : IsTypeName owner)
    (letters : Text.IsAlphanumericText (namingContext owner way).toList) :
    typeName (namingContext owner way) = Text.pascalCase (namingContext owner way) :=
  typeName_of_plain letters named.nonempty_context named.beginsPlain_context

theorem IsTypeName.isWordText_context (named : IsTypeName owner) (wordy : IsWordWay way) :
    Text.IsWordText (namingContext owner way).toList :=
  (named.append wordy.toList_join).letters

theorem IsTypeName.typeName_context_eq_iff (named : IsTypeName owner)
    (letters : Text.IsAlphanumericText (namingContext owner way).toList) :
    typeName (namingContext owner way) = namingContext owner way ↔
      Text.IsPascalCase (namingContext owner way).toList := by
  rw [named.typeName_context letters]
  exact Text.pascalCase_eq_self_iff letters named.nonempty_context

theorem namedAfter_of_isNumbered (named : IsTypeName owner) (wordy : IsWordWay way)
    (numbered : IsNumbered (typeName (namingContext owner way)) name) :
    NamedAfter owner way name where
  numbered := numbered
  kept := named.typeName_context_eq_iff
  continues := by
    intro letters pascal
    have same := (named.typeName_context_eq_iff letters).mpr pascal
    rw [same] at numbered
    exact ⟨numbered, (owner_isPrefix owner way).trans numbered.isPrefix⟩
  caseless := by
    intro ascii
    have letters := Text.isAlphanumericText_of_ascii ascii (named.isWordText_context wordy)
    have goesOn := numbered.isPrefix.map Char.toLower
    rw [named.typeName_context letters,
      Text.caseless_pascalCase letters named.nonempty_context ascii] at goesOn
    exact ((owner_isPrefix owner way).map Char.toLower).trans goesOn

end Schemata
