import Os161.Libc.String
import Os161.Sfs.Io

/-!
# `uiomove` over kernel buffers

kern/lib/uio.c moves bytes between a kernel buffer `ptr` and the buffers a
`struct uio` names, its iovecs. Here the uio is a `UIO_SYSSPACE` one: its
iovecs are kernel buffers in the same memory as `ptr`, and each move is a
`memmove`. (`Sfs.Uio` is the one-buffer uio `uio_kinit` builds, as SFS uses
it.)

`uiomove(ptr, n, uio)` loops while `n > 0` and `uio_resid > 0`: it takes the
first iovec, skips it when it is empty (`panic` when it was the last), and
otherwise moves `min(iov_len, n)` bytes, advancing the iovec, `ptr`, `n`,
`uio_offset` and `uio_resid`. The size of a move is bounded by `n` and the
iovec, not by `uio_resid`: `uio_resid -= size` is a `size_t` subtraction, and
where the iovec is longer than `uio_resid` and `n` larger still, it wraps.

* `uiomove_overruns_resid`: with the first iovec longer than `uio_resid` and
  `uio_resid < n` up to that length, `uiomove` moves all `n` bytes, and
  `uio_resid` wraps to `2^32 - (n - uio_resid)`.

The loop runs on `fuel`, one unit a round; `none` is a `panic`, undefined
behaviour, or fuel run out.
-/

namespace Os161

/-- `struct iovec` with a kernel address: `iov_kbase` and `iov_len`. -/
structure Iovec where
  kbase : Nat
  len : Nat
  deriving DecidableEq, Repr

/-- `struct uio` over kernel buffers: the iovecs from `uio_iov` on (there are
    `uio_iovcnt` of them), `uio_offset`, `uio_resid` and `uio_rw`. -/
structure Uio where
  iov : List Iovec
  offset : Int
  resid : Nat
  rw : Sfs.UioRw

namespace Uio

/-- The loop of `uiomove(ptr, n, uio)`, at most `fuel` rounds: the memory and
    the uio after it. -/
def uiomoveLoop : Nat → (Nat → UInt8) → Nat → Nat → Uio → Option ((Nat → UInt8) × Uio)
  | 0, _, _, _, _ => none
  | fuel + 1, mem, ptr, n, uio =>
    if n > 0 ∧ uio.resid > 0 then
      match uio.iov with
      -- `uio_iovcnt` already `0`: a read past the array of iovecs
      | [] => none
      | iov :: rest =>
        let size := min iov.len n
        if size = 0 then
          -- `uio_iov++; uio_iovcnt--;`, and `panic` when none is left
          if rest = [] then none else uiomoveLoop fuel mem ptr n { uio with iov := rest }
        else
          let mem := match uio.rw with
            | .read => Libc.memmove mem iov.kbase ptr size
            | .write => Libc.memmove mem ptr iov.kbase size
          uiomoveLoop fuel mem (ptr + size) (n - size)
            { uio with
              iov := ⟨iov.kbase + size, iov.len - size⟩ :: rest
              resid := (uio.resid + 2 ^ 32 - size) % 2 ^ 32
              offset := uio.offset + size }
    else some (mem, uio)

/-- `uiomove(ptr, n, uio)` for a `UIO_SYSSPACE` uio. -/
def uiomove (fuel : Nat) (mem : Nat → UInt8) (ptr n : Nat) (uio : Uio) : Option ((Nat → UInt8) × Uio) :=
  uiomoveLoop fuel mem ptr n uio

/-- The bytes moved into or out of the memory by one move of `size` bytes
    between `ptr` and the iovec at `kbase`. -/
def moved (rw : Sfs.UioRw) (mem : Nat → UInt8) (kbase ptr size : Nat) : Nat → UInt8 :=
  match rw with
  | .read => Libc.copy mem kbase ptr size
  | .write => Libc.copy mem ptr kbase size

/-- One round of the loop that moves bytes: `min(iov_len, n)` of them, with the
    counters and the iovec advanced. -/
theorem uiomoveLoop_move {fuel : Nat} {mem : Nat → UInt8} {ptr n : Nat} {uio : Uio} {iov : Iovec}
    {rest : List Iovec} (hiov : uio.iov = iov :: rest) (hn : 0 < n) (hr : 0 < uio.resid)
    (hsize : 0 < min iov.len n) :
    uiomoveLoop (fuel + 1) mem ptr n uio =
      uiomoveLoop fuel (moved uio.rw mem iov.kbase ptr (min iov.len n)) (ptr + min iov.len n)
        (n - min iov.len n)
        { uio with
          iov := ⟨iov.kbase + min iov.len n, iov.len - min iov.len n⟩ :: rest
          resid := (uio.resid + 2 ^ 32 - min iov.len n) % 2 ^ 32
          offset := uio.offset + min iov.len n } := by
  rw [uiomoveLoop, if_pos ⟨hn, hr⟩]
  simp only [hiov, if_neg (Nat.pos_iff_ne_zero.1 hsize)]
  congr 1
  cases uio.rw <;> simp [moved, Libc.memmove_copies]

/-- The loop stops once `n` or `uio_resid` is `0`. -/
theorem uiomoveLoop_stop {fuel : Nat} {mem : Nat → UInt8} {ptr n : Nat} {uio : Uio}
    (h : n = 0 ∨ uio.resid = 0) : uiomoveLoop (fuel + 1) mem ptr n uio = some (mem, uio) := by
  rw [uiomoveLoop, if_neg (by omega)]

/-- With the first iovec longer than `uio_resid` and `uio_resid < n` up to that
    length (so `uio_resid` is within the iovecs' total length), `uiomove` moves
    all `n` bytes, not `min(n, uio_resid)`: the one move is bounded by `n` and
    the iovec only, and `uio_resid -= size` wraps. -/
theorem uiomove_overruns_resid {fuel : Nat} {mem : Nat → UInt8} {ptr n : Nat} {uio : Uio}
    {iov : Iovec} {rest : List Iovec} (hiov : uio.iov = iov :: rest) (hr : 0 < uio.resid)
    (hlt : uio.resid < n) (hlen : n ≤ iov.len) (hn : n < 2 ^ 32) (hfuel : 2 ≤ fuel) :
    uiomove fuel mem ptr n uio =
      some (moved uio.rw mem iov.kbase ptr n,
        { uio with
          iov := ⟨iov.kbase + n, iov.len - n⟩ :: rest
          resid := 2 ^ 32 - (n - uio.resid)
          offset := uio.offset + n }) := by
  obtain ⟨f, rfl⟩ : ∃ f, fuel = f + 1 + 1 := ⟨fuel - 2, by omega⟩
  have hmin : min iov.len n = n := Nat.min_eq_right hlen
  -- one move of `n` bytes, after which `n` is `0`
  have hwrap : (uio.resid + 2 ^ 32 - n) % 2 ^ 32 = 2 ^ 32 - (n - uio.resid) := by
    rw [Nat.mod_eq_of_lt (by omega)]
    omega
  rw [uiomove, uiomoveLoop_move hiov (by omega) hr (by omega), hmin, Nat.sub_self, hwrap,
    uiomoveLoop_stop (.inl rfl)]

/-- `load_segment`'s uio shape: one iovec of `memsize = 10` bytes and
    `uio_resid = filesize = 5`; a move of 10 bytes into it. -/
theorem uiomove_overruns_of_memsize :
    uiomove 2 (fun _ => 0) 0x2000 10 ⟨[⟨0x1000, 10⟩], 0, 5, .read⟩ =
      some (moved .read (fun _ => 0) 0x1000 0x2000 10, ⟨[⟨0x1000 + 10, 10 - 10⟩], 0 + 10, 2 ^ 32 - (10 - 5), .read⟩) :=
  @uiomove_overruns_resid 2 (fun _ => 0) 0x2000 10 ⟨[⟨0x1000, 10⟩], 0, 5, .read⟩ ⟨0x1000, 10⟩ [] rfl
    (by decide) (by decide) (by decide) (by decide) (by decide)

end Uio

end Os161
