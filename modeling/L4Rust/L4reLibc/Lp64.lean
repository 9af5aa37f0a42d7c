import L4Rust.AioServer
import L4Rust.Library.LittleEndian

open aio_server.libc

namespace l4re_libc.aio

theorem decode_encode_word (w : UInt64) :
    UInt64.ofNat (LittleEndian.decode (LittleEndian.encode 8 w.toNat)) = w := by
  rw [LittleEndian.decode_encode_of_lt w.toNat_lt, UInt64.ofNat_toNat]

theorem decode_encode_half (w : UInt32) :
    UInt32.ofNat (LittleEndian.decode (LittleEndian.encode 4 w.toNat)) = w := by
  rw [LittleEndian.decode_encode_of_lt w.toNat_lt, UInt32.ofNat_toNat]

/-- A layout as a C compiler chooses it: the fields are aligned, with others in
between. -/
def lp64Layout : Layout where
  size := 168
  bytes cb :=
    LittleEndian.encode 4 cb.aio_fildes.toUInt32.toNat ++ (List.replicate 12 0 ++
      (LittleEndian.encode 8 cb.aio_buf.toNat ++ (LittleEndian.encode 8 cb.aio_nbytes.toNat ++
        (List.replicate 96 0 ++ (LittleEndian.encode 8 cb.aio_offset.toUInt64.toNat ++
          List.replicate 32 0)))))
  fields bytes :=
    ⟨(UInt32.ofNat (LittleEndian.decode (bytes.take 4))).toInt32,
      .ofNat (LittleEndian.decode ((bytes.drop 16).take 8)),
      .ofNat (LittleEndian.decode ((bytes.drop 24).take 8)),
      (UInt64.ofNat (LittleEndian.decode ((bytes.drop 128).take 8))).toInt64⟩
  size_pos := by decide
  size_lt := by decide
  length_bytes cb := by simp
  fields_bytes cb := by
    -- Each field is cut out of the bytes where it was put.
    change aiocb.mk
      (UInt32.ofNat (LittleEndian.decode (LittleEndian.encode 4 cb.aio_fildes.toUInt32.toNat))).toInt32
      (UInt64.ofNat (LittleEndian.decode (LittleEndian.encode 8 cb.aio_buf.toNat)))
      (UInt64.ofNat (LittleEndian.decode (LittleEndian.encode 8 cb.aio_nbytes.toNat)))
      (UInt64.ofNat (LittleEndian.decode (LittleEndian.encode 8 cb.aio_offset.toUInt64.toNat))).toInt64 = cb
    rw [decode_encode_half, decode_encode_word, decode_encode_word, decode_encode_word]
    rfl

end l4re_libc.aio
