import XlaneLkm.SubPayload

/-!
# Where the walk of a packet reads

`cur_bcnt` is unsigned and compared with zero only. An offset beyond the end of the packet makes it
wrap, and one that leaves less than a header is not noticed either.
-/

namespace XlaneLkm

open ByteMemory

variable {m : Nat → UInt8} {instances p left : Nat} {bcnt : UInt32}

/-- With `left` bytes from `p` on: nothing is left, or at least a header, and unless this is the last
record its offset stays within them. -/
def OffsetsFit (m : Nat → UInt8) : Nat → Nat → Nat → Prop
  | 0, _, _ => True
  | k + 1, p, left => left = 0 ∨ (4 ≤ left ∧ (k = 0 ∨ ((getProtoOffsetVal m p).toNat ≤ left ∧
      OffsetsFit m k (p + (getProtoOffsetVal m p).toNat) (left - (getProtoOffsetVal m p).toNat))))

/-- The counter is right as long as it does not wrap, and not zero when it does. -/
theorem left_of_offset (bcnt : UInt32) (offset : UInt16) :
    (offset.toNat ≤ bcnt.toNat → (bcnt - offset.toUInt32).toNat = bcnt.toNat - offset.toNat) ∧
      (bcnt.toNat < offset.toNat → 0 < (bcnt - offset.toUInt32).toNat) := by
  have hoffset : offset.toUInt32.toNat = offset.toNat := UInt16.toNat_toUInt32 offset
  have hlt := offset.toNat_lt
  have hbcnt := bcnt.toNat_lt
  rw [UInt32.toNat_sub, hoffset]
  constructor
  · intro hle
    omega
  · intro hwrap
    omega

theorem headersRead_inside_iff : (∀ q ∈ headersRead m instances p bcnt, q + 4 ≤ p + bcnt.toNat) ↔
    OffsetsFit m instances p bcnt.toNat := by
  induction instances generalizing p bcnt with
  | zero => exact iff_of_true nofun trivial
  | succ k ih =>
    rcases Nat.eq_zero_or_pos bcnt.toNat with hzero | hpos
    · obtain rfl : bcnt = 0 := UInt32.toNat_inj.mp hzero
      exact iff_of_true nofun (.inl rfl)
    obtain ⟨hexact, hwrap⟩ := left_of_offset bcnt (getProtoOffsetVal m p)
    rw [headersRead_of_pos hpos, List.forall_mem_cons, OffsetsFit, or_iff_right hpos.ne',
      Nat.add_le_add_iff_left]
    refine and_congr_right fun _ => ?_
    cases k with
    | zero => exact iff_of_true nofun (.inl rfl)
    | succ k =>
      rw [or_iff_right (Nat.succ_ne_zero k)]
      by_cases hle : (getProtoOffsetVal m p).toNat ≤ bcnt.toNat
      · have hend : p + bcnt.toNat = p + (getProtoOffsetVal m p).toNat +
            (bcnt - (getProtoOffsetVal m p).toUInt32).toNat := by
          rw [hexact hle]
          omega
        rw [and_iff_right hle, hend, ih, hexact hle]
      · -- the next header is read behind the end
        have hbehind := hwrap (Nat.lt_of_not_le hle)
        rw [headersRead_of_pos hbehind]
        refine iff_of_false (fun hinside => ?_) fun hfits => hle hfits.1
        have := hinside _ List.mem_cons_self
        omega

/-- **The walk stays in the packet exactly if the offsets do**, and no rest of them is shorter than a
header. -/
theorem headers_inside_iff (m : Nat → UInt8) (payload instances : Nat) (bcnt : UInt32) :
    (∀ q ∈ subPayloadHeaders m payload instances bcnt, q + 4 ≤ payload + bcnt.toNat) ↔
      4 < instances ∨ OffsetsFit m instances payload bcnt.toNat := by
  unfold subPayloadHeaders
  split
  case isTrue h => exact iff_of_true nofun (.inl h)
  case isFalse h => rw [or_iff_right h, headersRead_inside_iff]

/-- An ALIVE of 22 bytes that says it has 23, and that another record follows. -/
theorem header_behind_packet :
    ¬∀ q ∈ subPayloadHeaders (setHeader (fun _ => 0) 0 1 23) 0 2 22,
      q + 4 ≤ 0 + (22 : UInt32).toNat := by
  decide

end XlaneLkm
