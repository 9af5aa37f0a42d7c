import Mathlib
import L4Rust.VirtioFrontend.Queue

namespace virtio_frontend.transport

open queue (VirtQueue)

structure VirtioTransport where
  device_features : UInt64
  driver_features : UInt64
  config : List UInt8
  queue : VirtQueue
  deriving DecidableEq, Repr

/-- The range of a slice. One that starts behind its end, or ends behind the slice, stops the
program. -/
def slice (bytes : List UInt8) (start stop : UInt64) : Option (List UInt8) :=
  if start ≤ stop ∧ stop.toNat ≤ bytes.length then some ((bytes.take stop.toNat).drop start.toNat)
  else none

/-- What a slice holds after the copy. Slices of different lengths stop the program. -/
def copy_from_slice (dst src : List UInt8) : Option (List UInt8) :=
  if dst.length = src.length then some src else none

namespace VirtioTransport

def new (device_features : UInt64) (config_len : Nat) : VirtioTransport :=
  ⟨device_features, 0, List.replicate config_len 0, .new⟩

def negotiate_features (self : VirtioTransport) (driver_supported : UInt64) : UInt64 × VirtioTransport :=
  let negotiated := self.device_features &&& driver_supported
  (negotiated, { self with driver_features := negotiated })

variable (self : VirtioTransport) (offset : UInt64) (data : List UInt8)

/-- What the buffer holds after the read. The sum wraps around here. In a build that checks it the
program stops at the sum already, and not at the slice. -/
def read_config : Option (List UInt8) :=
  let stop := offset + .ofNat data.length
  if stop.toNat ≤ self.config.length then
    (slice self.config offset stop).bind fun range => copy_from_slice data range
  else none

def write_config : Option VirtioTransport :=
  let stop := offset + .ofNat data.length
  if stop.toNat ≤ self.config.length then
    (slice self.config offset stop).bind fun range =>
      (copy_from_slice range data).map fun copied =>
        { self with config := self.config.take offset.toNat ++ copied ++ self.config.drop stop.toNat }
  else none

variable {self offset data}

/-- A sum that has wrapped around is a range that starts behind its end. -/
theorem stop_of_range {len : Nat} (hlen : len < 2 ^ 64) (hdata : data.length < 2 ^ 64) :
    (offset ≤ offset + .ofNat data.length ∧ (offset + .ofNat data.length).toNat ≤ len) ↔
      offset.toNat + data.length ≤ len := by
  have hword : (UInt64.ofNat data.length).toNat = data.length := UInt64.toNat_ofNat_of_lt' hdata
  have hoffset := offset.toNat_lt
  rw [UInt64.le_iff_toNat_le, UInt64.toNat_add, hword]
  omega

theorem toNat_stop {len : Nat} (hlen : len < 2 ^ 64) (h : offset.toNat + data.length ≤ len) :
    (offset + .ofNat data.length).toNat = offset.toNat + data.length := by
  have hword : (UInt64.ofNat data.length).toNat = data.length :=
    UInt64.toNat_ofNat_of_lt' (show data.length < 2 ^ 64 by omega)
  rw [UInt64.toNat_add, hword]
  omega

theorem slice_of_range (hlen : self.config.length < 2 ^ 64)
    (h : offset.toNat + data.length ≤ self.config.length) :
    slice self.config offset (offset + .ofNat data.length) =
      some ((self.config.drop offset.toNat).take data.length) := by
  have hdata : data.length < 2 ^ 64 := by omega
  rw [slice, if_pos ((stop_of_range hlen hdata).mpr h), toNat_stop hlen h, List.drop_take, Nat.add_sub_cancel_left]

theorem length_range (h : offset.toNat + data.length ≤ self.config.length) :
    ((self.config.drop offset.toNat).take data.length).length = data.length := by
  rw [List.length_take, List.length_drop]
  omega

/-- In range, a read fetches the bytes. -/
theorem read_config_of_range (hlen : self.config.length < 2 ^ 64)
    (h : offset.toNat + data.length ≤ self.config.length) :
    self.read_config offset data = some ((self.config.drop offset.toNat).take data.length) := by
  rw [read_config]
  rw [if_pos (by rw [toNat_stop hlen h]; exact h), slice_of_range hlen h, Option.bind_some,
    copy_from_slice, if_pos (length_range h).symm]

/-- In range, a write replaces the bytes. -/
theorem write_config_of_range (hlen : self.config.length < 2 ^ 64)
    (h : offset.toNat + data.length ≤ self.config.length) :
    self.write_config offset data = some { self with
      config := self.config.take offset.toNat ++ data ++ self.config.drop (offset.toNat + data.length) } := by
  rw [write_config]
  rw [if_pos (by rw [toNat_stop hlen h]; exact h), slice_of_range hlen h, Option.bind_some,
    copy_from_slice, if_pos (length_range h), Option.map_some, toNat_stop hlen h]

theorem slice_of_not_range (hlen : self.config.length < 2 ^ 64) (hdata : data.length < 2 ^ 64)
    (h : ¬ offset.toNat + data.length ≤ self.config.length) :
    slice self.config offset (offset + .ofNat data.length) = none := by
  rw [slice, if_neg]
  rw [stop_of_range hlen hdata]
  exact h

/-- Out of range, both stop the program. -/
theorem read_config_of_not_range (hlen : self.config.length < 2 ^ 64) (hdata : data.length < 2 ^ 64)
    (h : ¬ offset.toNat + data.length ≤ self.config.length) : self.read_config offset data = none := by
  rw [read_config]
  rw [slice_of_not_range hlen hdata h, Option.bind_none, ite_self]

theorem write_config_of_not_range (hlen : self.config.length < 2 ^ 64) (hdata : data.length < 2 ^ 64)
    (h : ¬ offset.toNat + data.length ≤ self.config.length) : self.write_config offset data = none := by
  rw [write_config]
  rw [slice_of_not_range hlen hdata h, Option.bind_none, ite_self]

end VirtioTransport

end virtio_frontend.transport
