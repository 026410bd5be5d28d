import Mathlib.Data.List.ModifyLast
import Mathlib.Order.BoundedOrder.Basic
import TxService.OrderedCuts
import TxService.Transition

/-!
# The slices of a range

`TemplateStoreRange` keeps the keys between the slices in a sorted vector beside the vector of slices,
and a slice knows its two ends. A null end key is `none`.
-/

namespace TxService.RangeSlice

open OrderedCuts

universe u

inductive SliceStatus
  | partiallyCached
  | fullyCached
  | beingLoaded
  deriving DecidableEq

/-- A request that loads a slice. -/
structure FillStoreSliceCc where
  forceLoad : Bool
  deriving DecidableEq

/-- `UINT64_MAX`, no size after the checkpoint. -/
def noPostCkptSize : UInt64 := 18446744073709551615

structure StoreSlice (K : Type u) where
  startKey : K
  endKey : Option K
  size : UInt64
  postCkptSize : UInt64
  status : SliceStatus
  pins : UInt16
  toAlter : Bool
  fetchSliceCc : Option FillStoreSliceCc
  -- a request that fills the key cache from the slice
  initKeyCacheCc : Bool
  lastLoadTs : UInt64

structure TemplateStoreRange (K : Type u) where
  rangeStartKey : K
  rangeEndKey : Option K
  boundaryKeys : List K
  slices : List (StoreSlice K)
  pins : UInt32

/-- What a slice is made from; the key is its start. -/
structure SliceInitInfo (K : Type u) where
  key : K
  size : UInt32
  status : SliceStatus

structure SliceChangeInfo (K : Type u) where
  key : K
  curSize : UInt32
  postUpdateSize : UInt32

namespace StoreSlice

variable {K : Type u}

def new (startKey : K) (endKey : Option K) (size : UInt64) (status : SliceStatus) : StoreSlice K where
  startKey := startKey
  endKey := endKey
  size := size
  postCkptSize := noPostCkptSize
  status := status
  pins := 0
  toAlter := false
  fetchSliceCc := none
  initKeyCacheCc := false
  lastLoadTs := 1

/-- Some request uses the slice or fills it. -/
def busy (s : StoreSlice K) : Bool :=
  decide (0 < s.pins) || decide (s.status = .beingLoaded) || s.fetchSliceCc.isSome ||
    s.initKeyCacheCc

def bounds (s : StoreSlice K) : K × Option K := (s.startKey, s.endKey)

end StoreSlice

namespace TemplateStoreRange

section
variable {K : Type u}

def new (startKey : K) (endKey : Option K) (emptyRange : Bool) : TemplateStoreRange K where
  rangeStartKey := startKey
  rangeEndKey := endKey
  boundaryKeys := []
  slices := [.new startKey endKey 0 (if emptyRange then .fullyCached else .partiallyCached)]
  pins := 0

def setRangeEndKey (endKey : K) (r : TemplateStoreRange K) : TemplateStoreRange K :=
  { r with
    rangeEndKey := some endKey
    slices := r.slices.modifyLast fun s => { s with endKey := some endKey } }

/-- The loop of `InitSlices`: a slice ends where the next one starts. -/
def makeSlices (rangeEndKey : Option K) : K → SliceInitInfo K → List (SliceInitInfo K) →
    List (StoreSlice K)
  | start, info, [] => [.new start rangeEndKey info.size.toUInt64 info.status]
  | start, info, next :: rest =>
    .new start (some next.key) info.size.toUInt64 info.status ::
      makeSlices rangeEndKey next.key next rest

/-- There is a first slice; its key is not looked at. -/
def initSlices (first : SliceInitInfo K) (rest : List (SliceInitInfo K))
    (r : TemplateStoreRange K) : TemplateStoreRange K :=
  { r with
    boundaryKeys := rest.map SliceInitInfo.key
    slices := makeSlices r.rangeEndKey r.rangeStartKey first rest }

end

section
variable {K : Type u} [LinearOrder K]

/-- The loop of `LowerBound` from `first_idx` over so many keys; it ends before the steps do. -/
def lowerBoundFrom (keys : List K) (searchKey : K) : Nat → Nat → Nat → Nat
  | 0, firstIdx, _ => firstIdx
  | steps + 1, firstIdx, len =>
    if 0 < len then
      let halfLen := len >>> 1
      let middleIdx := firstIdx + halfLen
      if (keys[middleIdx]?).any fun key => decide (key < searchKey) then
        lowerBoundFrom keys searchKey steps (middleIdx + 1) (len - halfLen - 1)
      else lowerBoundFrom keys searchKey steps firstIdx halfLen
    else firstIdx

def lowerBound (keys : List K) (searchKey : K) : Nat :=
  lowerBoundFrom keys searchKey keys.length 0 keys.length

def searchSlice (r : TemplateStoreRange K) (searchKey : K) (inclusiveSlice : Bool) : Nat :=
  let lowerBoundIdx := lowerBound r.boundaryKeys searchKey
  if lowerBoundIdx = r.boundaryKeys.length then lowerBoundIdx
  else if r.boundaryKeys[lowerBoundIdx]? = some searchKey ∧ inclusiveSlice then lowerBoundIdx + 1
  else lowerBoundIdx

def findSlice (r : TemplateStoreRange K) (key : K) : Option (StoreSlice K) :=
  r.slices[r.searchSlice key true]?

/-- The slices from `remove_offset` on are taken out, and the range has no end until it is set. -/
def splitRange (newEnd : K) (r : TemplateStoreRange K) :
    Bool × List (SliceInitInfo K) × TemplateStoreRange K :=
  let removeOffset := r.searchSlice newEnd true
  if removeOffset = 0 then (true, [], r)
  else if r.slices.any StoreSlice.busy then (false, [], r)
  else
    (true,
      List.zipWith (fun key s => ⟨key, s.size.toUInt32, s.status⟩)
        (r.boundaryKeys.drop (removeOffset - 1)) (r.slices.drop removeOffset),
      { r with
        slices := r.slices.take removeOffset
        boundaryKeys := r.boundaryKeys.take (removeOffset - 1)
        rangeEndKey := none })

/-- A sub-slice ends where the next one starts, the last one where the slice did. -/
def subSlice (slice : StoreSlice K) (sliceEndKey : Option K) (info : SliceChangeInfo K)
    (rest : List (SliceChangeInfo K)) : StoreSlice K :=
  { StoreSlice.new info.key ((rest.head?.map SliceChangeInfo.key).or sliceEndKey)
      info.curSize.toUInt64 .partiallyCached with
    postCkptSize := info.postUpdateSize.toUInt64
    status := slice.status
    lastLoadTs := slice.lastLoadTs }

/-- The loop of `UpdateSlice`: the keys and sub-slices from `idx` on are put in. -/
def insertSubSlices (slice : StoreSlice K) (sliceEndKey : Option K) (sliceIdx : Nat) :
    Nat → List (SliceChangeInfo K) → TemplateStoreRange K → TemplateStoreRange K
  | _, [], r => r
  | idx, info :: rest, r =>
    insertSubSlices slice sliceEndKey sliceIdx (idx + 1) rest
      { r with
        boundaryKeys := r.boundaryKeys.insertIdx (sliceIdx + idx - 1) info.key
        slices := r.slices.insertIdx (sliceIdx + idx) (subSlice slice sliceEndKey info rest) }

/-- `UpdateSlice`, of the slice at a position and at least two split keys, the first of which is the
slice's own start. -/
def updateSlice [OrderBot K] (position : Nat) (first next : SliceChangeInfo K)
    (rest : List (SliceChangeInfo K)) (r : TemplateStoreRange K) : TemplateStoreRange K :=
  match r.slices[position]? with
  | none => r
  | some slice =>
    let sliceIdx := if slice.startKey = ⊥ then 0 else r.searchSlice slice.startKey true
    insertSubSlices slice slice.endKey sliceIdx 1 (next :: rest)
      { r with
        slices := r.slices.set position
          { slice with
            endKey := some next.key
            size := first.curSize.toUInt64
            postCkptSize := first.postUpdateSize.toUInt64 } }

end

end TemplateStoreRange

end TxService.RangeSlice
