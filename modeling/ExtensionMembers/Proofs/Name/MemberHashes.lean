import ExtensionMembers.Name.TypeHash
import Mathlib.Data.LawfulXor.Basic
import Mathlib.Data.Nat.ModEq

/-!
# Hashes of members

The hash of a member mixes the word of its owner with the digest of its name, multiplies the result
by a factor and adds the number of its parameters. The factor has an inverse modulo 2 ^ 64, so each
of these steps can be undone: a hash, a name and a number of parameters leave one possible owner.
None of this depends on how names are digested.

## Main definitions

* `TypeHash.ofMemberBy`: the hash of a member, the names digested in any way.
* `TypeHash.ownerBy`: the owner that the hash of a member leaves.

## Main results

* `TypeHash.ownerBy_ofMemberBy`, `TypeHash.ofMemberBy_ownerBy`: owner and hash determine each other.
* `TypeHash.member_hashes_apart`: which owners and numbers of parameters share a hash.
-/

namespace ExtensionMembers.TypeHash

/-- `TypeHash.ofMember` with the names digested by any `digest`. -/
def ofMemberBy (digest : String → UInt64) (owner : TypeHash) (name : String) (parameters : Nat) :
    TypeHash :=
  ⟨(memberMark ^^^ owner.word ^^^ digest name) * memberFactor + UInt64.ofNat parameters⟩

/-- `ofMember` is made with the `textDigest`. -/
theorem ofMemberBy_textDigest : ofMemberBy textDigest = ofMember := rfl

/-! ## The owner of a hash -/

/-- The word that undoes a multiplication by `memberFactor`. -/
def memberInverse : UInt64 := 0xd3f20f0a40208825

theorem memberFactor_mul_memberInverse : memberFactor * memberInverse = 1 := by decide

theorem memberInverse_mul_memberFactor : memberInverse * memberFactor = 1 := by decide

/-- The owner that the hash of a member leaves for a name and a number of parameters; it undoes
`ofMemberBy`. -/
def ownerBy (digest : String → UInt64) (hash : TypeHash) (name : String) (parameters : Nat) :
    TypeHash :=
  ⟨memberMark ^^^ ((hash.word - UInt64.ofNat parameters) * memberInverse ^^^ digest name)⟩

variable (digest : String → UInt64) (name : String) (parameters : Nat)

/-- `ownerBy` reads the owner back from the hash of its member. -/
theorem ownerBy_ofMemberBy (owner : TypeHash) :
    ownerBy digest (ofMemberBy digest owner name parameters) name parameters = owner := by
  rw [ownerBy, ofMemberBy, UInt64.add_sub_cancel, UInt64.mul_assoc, memberFactor_mul_memberInverse,
    UInt64.mul_one, xor_cancel_right, xor_cancel_left]

/-- Every hash is that of a member of the owner that `ownerBy` finds. -/
theorem ofMemberBy_ownerBy (hash : TypeHash) :
    ofMemberBy digest (ownerBy digest hash name parameters) name parameters = hash := by
  rw [ofMemberBy, ownerBy, xor_cancel_left, xor_cancel_right, UInt64.mul_assoc,
    memberInverse_mul_memberFactor, UInt64.mul_one, UInt64.sub_add_cancel]

/-- For a name and a number of parameters, `ofMemberBy` is one to one between owners and hashes. -/
theorem bijective_ofMemberBy :
    Function.Bijective fun owner => ofMemberBy digest owner name parameters :=
  Function.bijective_iff_has_inverse.2 ⟨fun hash => ownerBy digest hash name parameters,
    ownerBy_ofMemberBy digest name parameters, ofMemberBy_ownerBy digest name parameters⟩

/-! ## Numbers of parameters -/

/-- `ofMemberBy` gives members of one owner with one name the same hash if their numbers of
parameters agree modulo 2 ^ 64. -/
theorem ofMemberBy_eq_iff_modEq (owner : TypeHash) {first second : Nat} :
    ofMemberBy digest owner name first = ofMemberBy digest owner name second ↔
      first ≡ second [MOD 2 ^ 64] := by
  -- The mixed words are the same, so the hashes differ by the numbers alone, read as words.
  rw [ofMemberBy, ofMemberBy, TypeHash.mk.injEq, UInt64.add_right_inj,
    UInt64.ofNat_eq_iff_mod_eq_toNat, UInt64.toNat_ofNat']
  exact Iff.rfl

/-- Whatever the digest of names, and so with `textDigest`, the hash of a member (`ofMember`) tells
its owner: for each name and number of parameters, every hash belongs to exactly one owner. For one
owner and name, two numbers of parameters share a hash exactly if they agree modulo 2 ^ 64. So
members of one name with the same number of parameters share a hash only if they share the owner. -/
theorem member_hashes_apart :
    ofMemberBy textDigest = ofMember ∧
      (∀ name parameters, Function.Bijective fun owner => ofMemberBy digest owner name parameters) ∧
      (∀ owner name first second,
        ofMemberBy digest owner name first = ofMemberBy digest owner name second ↔
          first ≡ second [MOD 2 ^ 64]) ∧
      ∀ name parameters owner other,
        ofMemberBy digest owner name parameters = ofMemberBy digest other name parameters ↔
          owner = other := by
  refine ⟨ofMemberBy_textDigest, bijective_ofMemberBy digest, fun owner name first second => ?_,
    fun name parameters owner other => ?_⟩
  · exact ofMemberBy_eq_iff_modEq digest name owner
  · exact (bijective_ofMemberBy digest name parameters).injective.eq_iff

end ExtensionMembers.TypeHash
