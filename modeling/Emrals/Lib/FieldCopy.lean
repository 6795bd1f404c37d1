import Mathlib

/-!
# Records copied field by field

A record type `S` with named fields `F` is described here only by `copy f s t`: the record `t`
with its field `f` taken from `s`. Two records *agree* on `f` when copying `f` from either one
gives the same record (`Agree`). The laws of `copy` (`Lawful`) are those of a record whose fields
are independent: a record that has just had `f` copied into it holds the copied value of `f`,
copying `f` changes no other field, and copying every field of a list of all the fields from `s`
gives `s`.

A masked copy copies the fields that a mask selects (`maskedCopy`). After a fold of masked copies
over the fields, a record agrees on every field with the source or with the target, as the mask
says (`agree_foldl_maskedCopy`), and two records that agree on every field are equal
(`Lawful.ext`). Together these compute any such fold one field at a time.
-/

namespace FieldCopy

variable {F S : Type}

/-- `s` and `t` agree on the field `f`. -/
def Agree (copy : F → S → S → S) (f : F) (s t : S) : Prop := ∀ u, copy f s u = copy f t u

/-- The laws of the field copies of a record whose fields are `fields`. -/
structure Lawful (copy : F → S → S → S) (fields : List F) : Prop where
  copy_self : ∀ f t, copy f t t = t
  copy_copy_self : ∀ f s u t, copy f (copy f s u) t = copy f s t
  copy_copy_ne : ∀ f g, f ≠ g → ∀ s u t, copy f (copy g s u) t = copy f u t
  copy_all : ∀ s t, fields.foldl (fun u f => copy f s u) t = s
  complete : ∀ f, f ∈ fields

/-- Copy the field `f` from `s` into `t` when the mask selects it. -/
def maskedCopy (copy : F → S → S → S) (mask : F → Bool) (s t : S) (f : F) : S :=
  if mask f then copy f s t else t

section
variable {copy : F → S → S → S} {f g : F} {s t u : S}

theorem Agree.refl (copy : F → S → S → S) (f : F) (s : S) : Agree copy f s s := fun _ => rfl

theorem Agree.symm (h : Agree copy f s t) : Agree copy f t s := fun u => (h u).symm

theorem Agree.trans (h₁ : Agree copy f s t) (h₂ : Agree copy f t u) : Agree copy f s u :=
  fun v => (h₁ v).trans (h₂ v)

variable {fields : List F}

/-- Agreeing on `f` is copying `f` without a change. -/
theorem agree_iff (hl : Lawful copy fields) : Agree copy f s t ↔ copy f s t = t := by
  constructor
  · intro h
    rw [h t, hl.copy_self]
  · intro h v
    rw [← hl.copy_copy_self f s t v, h]

theorem agree_copy_self (hl : Lawful copy fields) (f : F) (s t : S) :
    Agree copy f (copy f s t) s :=
  fun v => hl.copy_copy_self f s t v

theorem agree_copy_ne (hl : Lawful copy fields) (hfg : f ≠ g) (s t : S) :
    Agree copy f (copy g s t) t :=
  fun v => hl.copy_copy_ne f g hfg s t v

/-- Records that agree on every field are equal. -/
theorem Lawful.ext (hl : Lawful copy fields) (h : ∀ f, Agree copy f s t) : s = t := by
  have hcopy : (fun v f => copy f s v) = (fun v f => copy f t v) := by
    funext v f
    exact h f v
  calc s = fields.foldl (fun v f => copy f s v) t := (hl.copy_all s t).symm
    _ = fields.foldl (fun v f => copy f t v) t := by rw [hcopy]
    _ = t := hl.copy_all t t

variable [DecidableEq F]

/-- After masked copies of the fields `fs`, a record agrees on `g` with the source when `g` is
one of them and selected, and with the target otherwise. -/
theorem agree_foldl_maskedCopy (hl : Lawful copy fields) (mask : F → Bool) (s : S) (g : F) :
    ∀ (fs : List F) (t : S),
      Agree copy g (fs.foldl (maskedCopy copy mask s) t) (if g ∈ fs ∧ mask g = true then s else t)
  | [], t => by simpa using Agree.refl copy g t
  | f :: fs, t => by
    rw [List.foldl_cons]
    refine (agree_foldl_maskedCopy hl mask s g fs _).trans ?_
    by_cases hg : g ∈ fs ∧ mask g = true
    · rw [if_pos hg, if_pos ⟨List.mem_cons_of_mem f hg.1, hg.2⟩]
      exact Agree.refl copy g s
    · rw [if_neg hg]
      unfold maskedCopy
      by_cases hgf : g = f
      · -- the field of this step: the copy, or the target when the mask skips it
        subst hgf
        by_cases hm : mask g = true
        · rw [if_pos hm, if_pos ⟨List.mem_cons_self, hm⟩]
          exact agree_copy_self hl g s t
        · rw [if_neg hm, if_neg (fun h => hm h.2)]
          exact Agree.refl copy g t
      · -- another field: this step leaves `g` as it was
        have hnot : ¬(g ∈ f :: fs ∧ mask g = true) := by
          rintro ⟨hmem, hm⟩
          rcases List.mem_cons.1 hmem with h | h
          · exact hgf h
          · exact hg ⟨h, hm⟩
        rw [if_neg hnot]
        split
        · exact agree_copy_ne hl hgf s t
        · exact Agree.refl copy g t

/-- Masked copies of all the fields: every field comes from the source or the target, as the
mask says. -/
theorem agree_foldl_maskedCopy_fields (hl : Lawful copy fields) (mask : F → Bool) (s t : S)
    (g : F) :
    Agree copy g (fields.foldl (maskedCopy copy mask s) t) (if mask g = true then s else t) := by
  have h := agree_foldl_maskedCopy hl mask s g fields t
  simpa [hl.complete g] using h

end

end FieldCopy
