import Mathlib.Algebra.GroupWithZero.Nat
import Mathlib.Data.List.TakeDrop
import Mathlib.Order.Nat

/-!
# Streams of bytes

A stream is read in chunks. How many bytes a read gives is up to the source, as long as it is one at least while there
are bytes, and not more than asked for. Numbers are written with the most significant byte first.

* `ofBigEndian_bigEndian`: a number that fits in the bytes is read back.
* `ByteSource.length_recv_pos`: a read before the end of the stream gives something.
-/

namespace Opd.Lib

/-- A number in `width` bytes, the most significant first. -/
def bigEndian : ℕ → ℕ → List UInt8
  | 0, _ => []
  | width + 1, n => bigEndian width (n / 256) ++ [UInt8.ofNat n]

def ofBigEndian (bytes : List UInt8) : ℕ := bytes.foldl (fun n b => n * 256 + b.toNat) 0

theorem length_bigEndian (width n : ℕ) : (bigEndian width n).length = width := by
  induction width generalizing n with
  | zero => rfl
  | succ width ih => rw [bigEndian, List.length_append, ih, List.length_singleton]

/-- **A number that fits** is read back. -/
theorem ofBigEndian_bigEndian {width n : ℕ} (h : n < 256 ^ width) : ofBigEndian (bigEndian width n) = n := by
  induction width generalizing n with
  | zero =>
    rw [Nat.pow_zero] at h
    have hzero : n = 0 := by omega
    rw [hzero]
    rfl
  | succ width ih =>
    have hdiv : n / 256 < 256 ^ width := by
      rw [Nat.pow_succ] at h
      exact Nat.div_lt_of_lt_mul (by omega)
    have hread : ofBigEndian (bigEndian width (n / 256)) = n / 256 := ih hdiv
    have hbyte : (UInt8.ofNat n).toNat = n % 256 := UInt8.toNat_ofNat'
    rw [bigEndian, ofBigEndian, List.foldl_append, List.foldl_cons, List.foldl_nil]
    rw [ofBigEndian] at hread
    rw [hread, hbyte]
    omega

/-- A stream that is still to be read, until its end. The reads are counted, and `cuts` has a size for each. -/
structure ByteSource where
  incoming : List UInt8
  cuts : ℕ → ℕ
  calls : ℕ

namespace ByteSource

/-- A read of up to `n` bytes. -/
def recv (s : ByteSource) (n : ℕ) : List UInt8 × ByteSource :=
  let size := min n (max 1 (s.cuts s.calls))
  (s.incoming.take size, { s with incoming := s.incoming.drop size, calls := s.calls + 1 })

variable {s : ByteSource} {n : ℕ}

theorem recv_append (s : ByteSource) (n : ℕ) : (s.recv n).1 ++ (s.recv n).2.incoming = s.incoming :=
  List.take_append_drop _ _

theorem length_recv_le (s : ByteSource) (n : ℕ) : (s.recv n).1.length ≤ n := by
  rw [recv, List.length_take]
  omega

theorem length_recv_pos (hn : 0 < n) (h : s.incoming ≠ []) : 0 < (s.recv n).1.length := by
  have hlength := List.length_pos_iff.2 h
  rw [recv, List.length_take]
  omega

theorem recv_nil (h : s.incoming = []) (n : ℕ) : (s.recv n).1 = [] := by
  rw [recv, h, List.take_nil]

end ByteSource

end Opd.Lib
