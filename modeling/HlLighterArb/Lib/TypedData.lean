import Mathlib.Data.List.Basic

/-!
# Lib.TypedData

Signing structured data: a digest over the hash of a structure and a domain it is meant for, with
any hash function from byte strings to words of 32 bytes.

* `hashStruct`: the hash of the name of a type and its fields, a word each.
* `digest`: the hash of a domain separator and the hash of a structure.
* `Collides`: two texts are different and have one hash.
* `hashStruct_eq`, `digest_eq`: equal hashes are hashes of equal things, or two given texts collide.
-/

namespace TypedData

abbrev Bytes := List UInt8

variable {H : Bytes → Bytes}

def Collides (H : Bytes → Bytes) (x y : Bytes) : Prop :=
  x ≠ y ∧ H x = H y

theorem eq_or_collides {x y : Bytes} (h : H x = H y) : x = y ∨ Collides H x y :=
  or_iff_not_imp_left.mpr fun hne => ⟨hne, h⟩

/-- What is hashed for a structure. -/
def structData (typeHash : Bytes) (fields : List Bytes) : Bytes :=
  typeHash ++ fields.flatten

def hashStruct (H : Bytes → Bytes) (typeName : Bytes) (fields : List Bytes) : Bytes :=
  H (structData (H typeName) fields)

/-- What is hashed for the digest. -/
def digestData (separator structHash : Bytes) : Bytes :=
  0x19 :: 0x01 :: (separator ++ structHash)

def digest (H : Bytes → Bytes) (separator structHash : Bytes) : Bytes :=
  H (digestData separator structHash)

theorem flatten_inj {w : Nat} (fields fields' : List Bytes) (hcount : fields.length = fields'.length)
    (h : ∀ x ∈ fields, x.length = w) (h' : ∀ x ∈ fields', x.length = w)
    (heq : fields.flatten = fields'.flatten) : fields = fields' := by
  induction fields generalizing fields' with
  | nil => exact (List.length_eq_zero_iff.mp hcount.symm).symm
  | cons x fields ih =>
    cases fields' with
    | nil => cases hcount
    | cons y fields' =>
      obtain ⟨hx, hxs⟩ := List.forall_mem_cons.mp h
      obtain ⟨hy, hys⟩ := List.forall_mem_cons.mp h'
      obtain ⟨rfl, hrest⟩ := List.append_inj heq (hx.trans hy.symm)
      rw [ih fields' (Nat.succ.inj hcount) hxs hys hrest]

theorem hashStruct_eq {typeName : Bytes} {fields fields' : List Bytes} {w : Nat}
    (hcount : fields.length = fields'.length) (h : ∀ x ∈ fields, x.length = w)
    (h' : ∀ x ∈ fields', x.length = w)
    (heq : hashStruct H typeName fields = hashStruct H typeName fields') :
    fields = fields' ∨
      Collides H (structData (H typeName) fields) (structData (H typeName) fields') :=
  (eq_or_collides heq).imp_left fun hdata =>
    flatten_inj fields fields' hcount h h' (List.append_cancel_left hdata)

theorem digest_eq {separator structHash structHash' : Bytes}
    (heq : digest H separator structHash = digest H separator structHash') :
    structHash = structHash' ∨
      Collides H (digestData separator structHash) (digestData separator structHash') :=
  (@eq_or_collides H _ _ heq).imp_left fun hdata =>
    List.append_cancel_left (List.cons.inj (List.cons.inj hdata).2).2

end TypedData
