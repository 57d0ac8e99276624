import Saps.Files.Paths
import Saps.Lib.Utf8

namespace Saps.Files

-- The `yrs` document behind a buffer, with its one root text field. `new` is
-- `Doc::new` followed by `get_or_insert_text`.
class Yrs (Doc : Type) where
  StateVector : Type
  Update : Type
  new : Doc
  getString : Doc → Str
  insert : Doc → UInt32 → Str → Doc
  removeRange : Doc → UInt32 → UInt32 → Doc
  encodeState : Doc → Update
  stateVector : Doc → StateVector
  encodeDiff : Doc → StateVector → Except Str Update
  applyUpdate : Doc → Update → Except Str Doc

-- The single-writer text behaviour of `yrs` that the buffers rely on: an edit
-- at character boundaries is a byte splice, what an edit does to the text
-- depends on the text alone, and a state vector it encoded can be decoded.
class LawfulYrs (Doc : Type) [Yrs Doc] : Prop where
  getString_new : Yrs.getString (Yrs.new : Doc) = []
  getString_insert (doc : Doc) (offset : UInt32) (data : Str)
    (hoffset : Utf8.Boundary (Yrs.getString doc) offset.toNat) :
    Yrs.getString (Yrs.insert doc offset data) =
      Utf8.splice (Yrs.getString doc) offset.toNat 0 data
  getString_removeRange (doc : Doc) (offset length : UInt32)
    (hstart : Utf8.Boundary (Yrs.getString doc) offset.toNat)
    (hend : Utf8.Boundary (Yrs.getString doc) (offset.toNat + length.toNat)) :
    Yrs.getString (Yrs.removeRange doc offset length) =
      Utf8.splice (Yrs.getString doc) offset.toNat length.toNat []
  insert_congr (doc other : Doc) (offset : UInt32) (data : Str)
    (h : Yrs.getString doc = Yrs.getString other) :
    Yrs.getString (Yrs.insert doc offset data) = Yrs.getString (Yrs.insert other offset data)
  removeRange_congr (doc other : Doc) (offset length : UInt32)
    (h : Yrs.getString doc = Yrs.getString other) :
    Yrs.getString (Yrs.removeRange doc offset length) =
      Yrs.getString (Yrs.removeRange other offset length)
  encodeDiff_stateVector (doc before : Doc) :
    ∃ update, Yrs.encodeDiff doc (Yrs.stateVector before) = .ok update

end Saps.Files
