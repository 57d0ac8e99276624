import Saps.Files.Yrs

namespace Saps.Files

-- A text call on a document, with the text it met.
inductive YrsCall where
  | insert (text : Str) (offset : UInt32) (data : Str)
  | removeRange (text : Str) (offset length : UInt32)
  deriving DecidableEq

-- Every offset handed over, and the end of every range, is a character boundary.
def YrsCall.Aligned : YrsCall → Prop
  | .insert text offset _ => Utf8.Boundary text offset.toNat
  | .removeRange text offset length =>
      Utf8.Boundary text offset.toNat ∧ Utf8.Boundary text (offset.toNat + length.toNat)

-- A document that keeps the text calls made on it.
structure Recorded (Doc : Type) where
  doc : Doc
  calls : List YrsCall

namespace Recorded

variable {Doc : Type}

-- The calls a change of a recorded document adds are aligned.
def Aligns (before after : Recorded Doc) : Prop :=
  ∃ made, after.calls = before.calls ++ made ∧ ∀ call ∈ made, call.Aligned

theorem Aligns.refl (recorded : Recorded Doc) : Aligns recorded recorded :=
  ⟨[], by simp, by simp⟩

theorem Aligns.trans {first second third : Recorded Doc} (left : Aligns first second)
    (right : Aligns second third) : Aligns first third := by
  obtain ⟨front, hfront, halignedFront⟩ := left
  obtain ⟨back, hback, halignedBack⟩ := right
  refine ⟨front ++ back, by rw [hback, hfront, List.append_assoc], ?_⟩
  intro call hcall
  exact (List.mem_append.mp hcall).elim (halignedFront call) (halignedBack call)

variable [Yrs Doc]

instance : Yrs (Recorded Doc) where
  StateVector := Yrs.StateVector Doc
  Update := Yrs.Update Doc
  new := ⟨Yrs.new, []⟩
  getString recorded := Yrs.getString recorded.doc
  insert recorded offset data :=
    ⟨Yrs.insert recorded.doc offset data,
      recorded.calls ++ [.insert (Yrs.getString recorded.doc) offset data]⟩
  removeRange recorded offset length :=
    ⟨Yrs.removeRange recorded.doc offset length,
      recorded.calls ++ [.removeRange (Yrs.getString recorded.doc) offset length]⟩
  encodeState recorded := Yrs.encodeState recorded.doc
  stateVector recorded := Yrs.stateVector recorded.doc
  encodeDiff recorded before := Yrs.encodeDiff recorded.doc before
  applyUpdate recorded update :=
    (Yrs.applyUpdate recorded.doc update).map fun doc => ⟨doc, recorded.calls⟩

instance [LawfulYrs Doc] : LawfulYrs (Recorded Doc) where
  getString_new := @LawfulYrs.getString_new Doc _ _
  getString_insert recorded := LawfulYrs.getString_insert recorded.doc
  getString_removeRange recorded := LawfulYrs.getString_removeRange recorded.doc
  insert_congr recorded other := LawfulYrs.insert_congr recorded.doc other.doc
  removeRange_congr recorded other := LawfulYrs.removeRange_congr recorded.doc other.doc
  encodeDiff_stateVector recorded before :=
    LawfulYrs.encodeDiff_stateVector recorded.doc before.doc

end Recorded

end Saps.Files
