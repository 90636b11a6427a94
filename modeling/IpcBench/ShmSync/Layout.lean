import IpcBench.Lib.Region
import IpcBench.Common.Arguments

/-!
# The segment of `shm-sync`

`create_segment` asks for the message and a `struct Sync`, in bytes. `create_sync` takes the
object from behind the message, but adds the size to a pointer to `struct Sync`, so that it
is counted in objects and not in bytes.
-/

namespace IpcBench.ShmSync

open Lib

/-- `struct Sync` as the compiler lays it out: how many bytes a mutex and a condition
variable have, and how many the structure has for the two. -/
structure SyncType where
  mutex : ℕ
  condition : ℕ
  bytes : ℕ
  mutex_pos : 0 < mutex
  condition_pos : 0 < condition
  members : mutex + condition ≤ bytes

/-- The structure has more than one byte. -/
theorem SyncType.two_le (sync : SyncType) : 2 ≤ sync.bytes := by
  have hmutex := sync.mutex_pos
  have hcondition := sync.condition_pos
  have hmembers := sync.members
  omega

/-- The structure on 64-bit Linux. -/
def linuxSync : SyncType := ⟨40, 48, 88, by decide, by decide, by decide⟩

/-- The `int` that `create_segment` passes to `shmget`. -/
def segmentSize (sync : SyncType) (size : Int32) : Int32 := Int32.ofInt (size.toInt + sync.bytes)

/-- The bytes that `create_segment` asks for. -/
def createSegment (sync : SyncType) (size : Int32) : Region :=
  ⟨0, (segmentSize sync size).toInt.toNat⟩

/-- The message area: what `attach_segment` zeroes, and what both `communicate` functions
read and write. -/
def messageArea (size : Int32) : Region := ⟨0, size.toInt.toNat⟩

/-- The object that `create_sync` initialises and returns. -/
def createSync (sync : SyncType) (size : Int32) : Region :=
  ⟨size.toInt.toNat * sync.bytes, sync.bytes⟩

/-- What the layout is meant to be: the object is inside the segment and outside the message
area. -/
structure LaidOut (sync : SyncType) (size : Int32) : Prop where
  inside : (createSync sync size).Within (createSegment sync size)
  apart : (createSync sync size).Disjoint (messageArea size)

section

variable {sync : SyncType} {size : Int32}

/-- Without an overflow the segment has the bytes of the message and of the object. -/
theorem createSegment_eq (hsize : 1 ≤ size) (hfits : size.toInt + sync.bytes ≤ 2147483647) :
    createSegment sync size = ⟨0, size.toInt.toNat + sync.bytes⟩ := by
  have hlow : 1 ≤ size.toInt := Int32.le_iff_toInt_le.mp hsize
  rw [createSegment, segmentSize, Int32.toInt_ofInt_of_le (by omega) (by omega)]
  congr 1
  omega

/-- The object is never inside the segment: its last byte is `size` objects too far. -/
theorem createSync_not_within (hsize : 1 ≤ size)
    (hfits : size.toInt + sync.bytes ≤ 2147483647) :
    ¬ (createSync sync size).Within (createSegment sync size) := by
  have hlow : 1 ≤ size.toInt := Int32.le_iff_toInt_le.mp hsize
  have hbytes := Nat.mul_le_mul_left size.toInt.toNat sync.two_le
  rw [createSegment_eq hsize hfits, Region.within_zero_iff, createSync]
  dsimp only
  omega

/-- The object is always behind the message area. -/
theorem createSync_disjoint : (createSync sync size).Disjoint (messageArea size) := by
  have hbytes := Nat.mul_le_mul_left size.toInt.toNat sync.two_le
  refine Or.inr ?_
  rw [createSync, messageArea]
  dsimp only
  omega

/-- From two bytes on it has not even a byte in the segment. -/
theorem createSync_outside (hsize : 2 ≤ size) (hfits : size.toInt + sync.bytes ≤ 2147483647)
    {offset : ℕ} (hoffset : (createSync sync size).Contains offset) :
    ¬ (createSegment sync size).Contains offset := by
  have hlow : 2 ≤ size.toInt := Int32.le_iff_toInt_le.mp hsize
  have hone : 1 ≤ size := Int32.le_iff_toInt_le.mpr (Int.le_trans (by decide) hlow)
  have hbase : size.toInt.toNat + sync.bytes ≤ size.toInt.toNat * sync.bytes :=
    Nat.add_le_mul (Int.toNat_le_toNat hlow) sync.two_le
  refine Region.Disjoint.not_contains (Or.inr ?_) hoffset
  rw [createSegment_eq hone hfits, createSync]
  dsimp only
  omega

end

/-- The layout of `shm-sync`, for every size from one on that leaves room for a `struct Sync`
in an `int`: the object that is returned does not lie inside the segment. -/
theorem never_laidOut (sync : SyncType) (size : Int32) (hsize : 1 ≤ size)
    (hfits : size.toInt + sync.bytes ≤ 2147483647) : ¬ LaidOut sync size :=
  fun h => createSync_not_within hsize hfits h.inside

/-- A message of one byte. -/
theorem never_laidOut_one_byte : ¬ LaidOut linuxSync 1 :=
  never_laidOut linuxSync 1 (by decide) (by decide)

/-- The default size: the segment has 4184 bytes, and the object starts at byte 360448. -/
theorem default_size_outside_segment :
    createSegment linuxSync 4096 = ⟨0, 4184⟩ ∧ createSync linuxSync 4096 = ⟨360448, 88⟩ ∧
      ¬ LaidOut linuxSync 4096 := by
  refine ⟨by decide, by decide, fun h => ?_⟩
  exact absurd h.inside (by decide)

end IpcBench.ShmSync
