import Mathlib.Algebra.Order.BigOperators.Group.Finset
import Mathlib.Order.Interval.Finset.Nat
import Sdpa.Hardware.OplOutput

/-!
# The checksums of the packets that are sent

The checksums are not computed anew: each one is updated by what the action changes. So
the checksum of the IP header, and that of the transport header with its pseudo header,
are right in the packet that is sent if and only if they were in the packet that came. The
zero of a UDP datagram without a checksum is updated as well.
-/
namespace Sdpa.Hardware

open Lib.OnesComplement OplProcessor
open Opl (newSource)

namespace OplAction

/-- Half `h` of the data that are sent. -/
def sentHalf (a : BitVec 320) (pk : Packet) (h : Nat) : BitVec 16 :=
  half ((sentWords a pk).getD (hdrCount a pk + h / 4) ⟨0, 0⟩).data (h % 4)

/-- The sum of the halves of the IP header. -/
def ipSum (pk : Packet) (x : Nat → BitVec 16) : Nat := ∑ h ∈ Finset.Ico 7 pk.tpAt, (x h).toNat

/-- The sum of the addresses and of `m` halves from the transport header on. The rest of the pseudo
header, the protocol and the length, comes to `c`. -/
def tpSum (pk : Packet) (c m : Nat) (x : Nat → BitVec 16) : Nat :=
  c + ∑ h ∈ Finset.Ico 13 17 ∪ Finset.Ico pk.tpAt (pk.tpAt + m), (x h).toNat

/-- The words of a UDP datagram without data. The checksum of the IP header is right. -/
def udpBody (chksum : BitVec 64) : List Word :=
  [⟨0, 0⟩, ⟨0, 0x0000000008004500⟩, ⟨0, 0x001c000000004011⟩, ⟨0, 0x66cd0a0000030a00⟩,
    ⟨0, 0x0002138800350008⟩, ⟨0, chksum⟩, ⟨0, 0⟩]

theorem udpBody_ctrl (chksum : BitVec 64) : ∀ w ∈ udpBody chksum, w.ctrl = 0 := by
  simp [udpBody]

theorem udpBody_size (chksum : BitVec 64) : 7 ≤ (udpBody chksum).length := Nat.le_refl 7

def udpFrame (chksum : BitVec 64) : Packet :=
  { frame 0 0 with
    body := udpBody chksum
    body_ctrl := udpBody_ctrl chksum
    size := udpBody_size chksum }

variable {a : BitVec 320} {pk : Packet} {h k c m : Nat} {ws : List Write} {hs : List Nat}

theorem sentHalf_eq (hh : h < 4 * pk.data.length) : sentHalf a pk h = newHalf a pk h := by
  rw [sentHalf, List.getD_eq_getElem?_getD, sentWords_data (by omega), Option.getD_some,
    half_newWord a pk _ (Nat.mod_lt _ (by omega)), Nat.div_add_mod]

/-! ## The halves that are written -/

theorem map_writeIf (flag : BitVec 16) (ws : List Write) :
    ((writeIf a flag ws).map Prod.fst).Sublist (ws.map Prod.fst) := by
  rw [writeIf]
  split
  · exact List.Sublist.refl _
  · exact List.nil_sublist _

theorem map_tosWrites : ((tosWrites a pk).map Prod.fst).Sublist [7] := map_writeIf _ _

theorem map_addrWrites : ((addrWrites a).map Prod.fst).Sublist [13, 14, 15, 16] := by
  rw [addrWrites, List.map_append]
  exact (map_writeIf _ _).append (map_writeIf _ _)

theorem map_portWrites : ((portWrites a pk).map Prod.fst).Sublist [pk.tpAt, pk.tpAt + 1] := by
  rw [portWrites, List.map_append]
  exact (map_writeIf _ _).append (map_writeIf _ _)

theorem map_nwWrites :
    ((tosWrites a pk ++ addrWrites a).map Prod.fst).Sublist [7, 13, 14, 15, 16] := by
  rw [List.map_append]
  exact map_tosWrites.append map_addrWrites

theorem map_tpWrites :
    ((addrWrites a ++ portWrites a pk).map Prod.fst).Sublist
      [13, 14, 15, 16, pk.tpAt, pk.tpAt + 1] := by
  rw [List.map_append]
  exact map_addrWrites.append map_portWrites

theorem lookup_of_not_mem (hsub : (ws.map Prod.fst).Sublist hs) (hh : h ∉ hs) :
    ws.lookup h = none := by
  rw [List.lookup_eq_none_iff]
  intro w hw
  have hmem := hsub.subset (List.mem_map_of_mem hw)
  rw [bne_iff_ne]
  exact fun heq => hh (heq ▸ hmem)

theorem lookup_of_mem (hws : (ws.map Prod.fst).Nodup) {w : Write} (hw : w ∈ ws) :
    ws.lookup w.1 = some w.2 := by
  induction ws with
  | nil => cases hw
  | cons v ws ih =>
    rw [List.map_cons, List.nodup_cons] at hws
    rcases List.mem_cons.mp hw with rfl | hw
    · exact List.lookup_cons_self
    · have hne : w.1 ≠ v.1 := fun heq => hws.1 (heq ▸ List.mem_map_of_mem hw)
      rw [List.lookup_cons, beq_eq_false_iff_ne.mpr hne]
      exact ih hws.2 hw

theorem delta_eq_sum (hws : (ws.map Prod.fst).Nodup) {y : Nat → Nat}
    (hy : ∀ w ∈ ws, y w.1 = w.2.toNat) :
    delta pk ws = ∑ h ∈ (ws.map Prod.fst).toFinset, (y h + (65535 - (pk.half h).toNat)) := by
  induction ws with
  | nil => rfl
  | cons w ws ih =>
    rw [List.map_cons, List.nodup_cons] at hws
    rw [delta, List.map_cons, List.toFinset_cons,
      Finset.sum_insert fun hmem => hws.1 (List.mem_toFinset.mp hmem), hy w List.mem_cons_self,
      ih hws.2 fun v hv => hy v (List.mem_cons_of_mem w hv)]

/-- Halves `S` in which `ws` are written and the checksum in half `k` is updated. -/
theorem updates_of_lookup {S : Finset Nat} {x : Nat → BitVec 16}
    (hsub : (ws.map Prod.fst).Sublist hs) (hnodup : hs.Nodup) (hk : k ∈ S)
    (hS : ∀ h ∈ hs, h ≠ k ∧ h ∈ S)
    (hx : ∀ h ∈ S, x h = ((ws ++ [(k, checksum pk k ws)]).lookup h).getD (pk.half h)) :
    Updates S (ws.map Prod.fst).toFinset k (fun h => (pk.half h).toNat) fun h => (x h).toNat where
  checksum := hk
  changed h hh := Finset.mem_erase.mpr (hS h (hsub.subset (List.mem_toFinset.mp hh)))
  le h := Nat.le_of_lt_succ (pk.half h).isLt
  same h hh hnot hne := by
    rw [List.mem_toFinset] at hnot
    rw [hx h hh, List.lookup_append, lookup_of_not_mem (List.Sublist.refl _) hnot, lookup_single,
      if_neg hne]
    rfl
  update := by
    have hfirst : ∀ w ∈ ws, (x w.1).toNat = w.2.toNat := by
      intro w hw
      rw [hx _ (hS _ (hsub.subset (List.mem_map_of_mem hw))).2, List.lookup_append,
        lookup_of_mem (hnodup.sublist hsub) hw]
      rfl
    rw [hx k hk, List.lookup_append, lookup_of_not_mem hsub fun hmem => (hS k hmem).1 rfl,
      lookup_single, if_pos rfl, ← delta_eq_sum (hnodup.sublist hsub) hfirst]
    exact Nat.mod_eq_of_lt (Nat.lt_succ_of_le (update_le _ _))

/-! ## The IP header -/

/-- The first half has the length of the header. -/
theorem half_seven_ge (hlen : 5 ≤ pk.ipHdrLen.toNat) : 1280 ≤ (pk.half 7).toNat := by
  rw [Packet.ipHdrLen, BitVec.extractLsb'_toNat, Nat.shiftRight_eq_div_pow] at hlen
  rw [Packet.half, half, BitVec.extractLsb'_toNat, Nat.shiftRight_eq_div_pow]
  show _ ≤ (pk.word 1).toNat / 1 % _
  omega

/-- The halves of the IP header that are sent. -/
theorem sentHalf_ip (hip : pk.isIp = true) (hh : 7 ≤ h) (hat : h < pk.tpAt)
    (hin : h < 4 * pk.data.length) :
    sentHalf a pk h = ((tosWrites a pk ++ addrWrites a ++
      [(12, checksum pk 12 (tosWrites a pk ++ addrWrites a))]).lookup h).getD (pk.half h) := by
  rw [sentHalf_eq hin, newHalf, writes, List.lookup_append, List.lookup_append,
    lookup_dlWrites (by omega), lookup_tpWrites_of_lt hat, Option.none_or, Option.or_none, nwWrites,
    if_pos hip]

theorem sentHalf_seven_pos (hip : pk.isIp = true) (hlen : 5 ≤ pk.ipHdrLen.toNat) :
    0 < (sentHalf a pk 7).toNat := by
  have hsize := pk.length_data_ge
  have hold := half_seven_ge hlen
  have hput := toNat_putBits_tos ((setNwTos a).extractLsb' 2 6) (pk.half 7)
  have htos := ((pk.half 7).extractLsb' 2 6).isLt
  rw [sentHalf_ip hip (Nat.le_refl 7) (by rw [Packet.tpAt]; omega) (by omega), List.lookup_append,
    List.lookup_append, lookup_of_not_mem map_addrWrites (by decide), lookup_single, tosWrites,
    lookup_writeIf, lookup_single]
  split
  · show 0 < (putBits 2 _ (pk.half 7)).toNat
    omega
  · show 0 < (pk.half 7).toNat
    omega

theorem updates_ip (hip : pk.isIp = true) (hlen : 5 ≤ pk.ipHdrLen.toNat)
    (hin : pk.tpAt ≤ 4 * pk.data.length) :
    Updates (Finset.Ico 7 pk.tpAt) ((tosWrites a pk ++ addrWrites a).map Prod.fst).toFinset 12
      (fun h => (pk.half h).toNat) fun h => (sentHalf a pk h).toNat := by
  have hat : 17 ≤ pk.tpAt := by rw [Packet.tpAt]; omega
  refine updates_of_lookup map_nwWrites (by decide) ?_ (fun h hh => ?_) fun h hh => ?_
  · exact Finset.mem_Ico.mpr ⟨by omega, by omega⟩
  · simp only [List.mem_cons, List.not_mem_nil, or_false] at hh
    rw [Finset.mem_Ico]
    omega
  · rw [Finset.mem_Ico] at hh
    exact sentHalf_ip hip hh.1 hh.2 (by omega)

/-- The checksum of the IP header that is sent is right if and only if that of the packet was. -/
theorem ipChecksum_sent (a : BitVec 320) (hip : pk.isIp = true) (hlen : 5 ≤ pk.ipHdrLen.toNat)
    (hin : pk.tpAt ≤ 4 * pk.data.length) :
    fold (ipSum pk (sentHalf a pk)) = 65535 ↔ fold (ipSum pk pk.half) = 65535 := by
  -- The first half keeps the sums from being zero.
  have hpos (x : Nat → BitVec 16) (hx : 0 < (x 7).toNat) :
      0 < 0 + ∑ h ∈ (Finset.Ico 7 pk.tpAt).erase 12, (x h).toNat := by
    have hmem : 7 ∈ (Finset.Ico 7 pk.tpAt).erase 12 := by
      rw [Finset.mem_erase, Finset.mem_Ico, Packet.tpAt]
      omega
    rw [Nat.zero_add]
    exact Nat.lt_of_lt_of_le hx (Finset.single_le_sum (f := fun h => (x h).toNat)
      (fun _ _ => Nat.zero_le _) hmem)
  have hvalid := (updates_ip (a := a) hip hlen hin).valid_iff (c := 0)
    (hpos pk.half (Nat.lt_of_lt_of_le (by decide) (half_seven_ge hlen)))
    (hpos _ (sentHalf_seven_pos hip hlen))
  rwa [Nat.zero_add, Nat.zero_add] at hvalid

theorem ipChecksum_sent_udpFrame :
    fold (ipSum (udpFrame 0) (sentHalf newSource (udpFrame 0))) = 65535 :=
  (ipChecksum_sent newSource rfl (by decide) (by decide)).mpr (by decide +kernel)

/-! ## The transport header -/

/-- The addresses and the halves from the transport header on that are sent. -/
theorem sentHalf_tp (hk : pk.tpChecksumAt = some k) (hlen : 5 ≤ pk.ipHdrLen.toNat)
    (hh : 13 ≤ h ∧ h < 17 ∨ pk.tpAt ≤ h) (hin : h < 4 * pk.data.length) :
    sentHalf a pk h = ((addrWrites a ++ portWrites a pk ++
      [(k, checksum pk k (addrWrites a ++ portWrites a pk))]).lookup h).getD (pk.half h) := by
  have hat : 17 ≤ pk.tpAt := by rw [Packet.tpAt]; omega
  have hge := tpChecksumAt_ge hk
  rw [sentHalf_eq hin, newHalf, writes, List.lookup_append, List.lookup_append,
    lookup_dlWrites (by omega), Option.none_or, List.lookup_append, List.lookup_append]
  rcases hh with ⟨h13, h17⟩ | hh
  · have htos : (tosWrites a pk).lookup h = none := by
      refine lookup_of_not_mem map_tosWrites ?_
      rw [List.mem_singleton]
      omega
    have hport : (portWrites a pk).lookup h = none := by
      refine lookup_of_not_mem map_portWrites ?_
      simp only [List.mem_cons, List.not_mem_nil, or_false]
      omega
    rw [lookup_tpWrites h17, nwWrites, if_pos (OplRewriter.tpChecksumAt_cases hk).1,
      List.lookup_append, List.lookup_append, htos, hport, lookup_single, lookup_single,
      if_neg (by omega), if_neg (by omega), Option.none_or, Option.or_none, Option.or_none]
  · have haddr : (addrWrites a).lookup h = none := by
      refine lookup_of_not_mem map_addrWrites ?_
      simp only [List.mem_cons, List.not_mem_nil, or_false]
      omega
    rw [lookup_nwWrites (by omega), Option.none_or, haddr, Option.none_or, tpWrites, if_pos hlen, hk,
      List.lookup_append]

theorem updates_tp (hk : pk.tpChecksumAt = some k) (hlen : 5 ≤ pk.ipHdrLen.toNat)
    (hm : k < pk.tpAt + m) (hin : pk.tpAt + m ≤ 4 * pk.data.length) :
    Updates (Finset.Ico 13 17 ∪ Finset.Ico pk.tpAt (pk.tpAt + m))
      ((addrWrites a ++ portWrites a pk).map Prod.fst).toFinset k (fun h => (pk.half h).toNat)
      fun h => (sentHalf a pk h).toNat := by
  have hat : 17 ≤ pk.tpAt := by rw [Packet.tpAt]; omega
  have hge := tpChecksumAt_ge hk
  refine updates_of_lookup map_tpWrites ?_ ?_ (fun h hh => ?_) fun h hh => ?_
  · simp
    omega
  · rw [Finset.mem_union, Finset.mem_Ico, Finset.mem_Ico]
    omega
  · simp only [List.mem_cons, List.not_mem_nil, or_false] at hh
    rw [Finset.mem_union, Finset.mem_Ico, Finset.mem_Ico]
    omega
  · rw [Finset.mem_union, Finset.mem_Ico, Finset.mem_Ico] at hh
    exact sentHalf_tp hk hlen (by omega) (by omega)

/-- The checksum of the transport header that is sent is right if and only if that of the packet
was. -/
theorem tpChecksum_sent (a : BitVec 320) (hk : pk.tpChecksumAt = some k)
    (hlen : 5 ≤ pk.ipHdrLen.toNat) (hc : 0 < c) (hm : k < pk.tpAt + m)
    (hin : pk.tpAt + m ≤ 4 * pk.data.length) :
    fold (tpSum pk c m (sentHalf a pk)) = 65535 ↔ fold (tpSum pk c m pk.half) = 65535 :=
  (updates_tp hk hlen hm hin).valid_iff (Nat.add_pos_left hc _) (Nat.add_pos_left hc _)

theorem tpChecksum_sent_udpFrame :
    let pk := udpFrame 0xd81c000000000000
    fold (tpSum pk 25 4 (sentHalf newSource pk)) = 65535 :=
  (tpChecksum_sent newSource (k := 20) rfl (by decide) (by decide) (by decide) (by decide)).mpr
    (by decide +kernel)

/-- The zero of a packet without a checksum is updated as well. -/
theorem sentHalf_of_zero (hk : pk.tpChecksumAt = some k) (hlen : 5 ≤ pk.ipHdrLen.toNat)
    (hin : k < 4 * pk.data.length) (hzero : pk.half k = 0) :
    sentHalf a pk k = 0 ↔ delta pk (addrWrites a ++ portWrites a pk) % 65535 = 0 := by
  have hat : 17 ≤ pk.tpAt := by rw [Packet.tpAt]; omega
  have hge := tpChecksumAt_ge hk
  have hports : (addrWrites a ++ portWrites a pk).lookup k = none := by
    refine lookup_of_not_mem map_tpWrites ?_
    simp only [List.mem_cons, List.not_mem_nil, or_false]
    omega
  have hle := update_le 0 (delta pk (addrWrites a ++ portWrites a pk))
  rw [sentHalf_tp hk hlen (by omega) hin, List.lookup_append, hports, lookup_single, if_pos rfl,
    checksum, hzero, ← update_of_zero, ← BitVec.toNat_inj]
  show update 0 _ % 65536 = 0 ↔ _
  rw [Nat.mod_eq_of_lt (by omega)]

/-- A UDP datagram without a checksum has one when it is sent with other addresses or ports, unless
the changes cancel, and it is wrong unless the sum happens to be right without one. -/
theorem udp_gets_checksum (a : BitVec 320) (pk : Packet) (hudp : pk.isUdp = true)
    (hlen : 5 ≤ pk.ipHdrLen.toNat) (hc : 0 < c) (hm : 3 < m)
    (hin : pk.tpAt + m ≤ 4 * pk.data.length)
    (hzero : pk.half (pk.tpAt + 3) = 0) :
    (sentHalf a pk (pk.tpAt + 3) = 0 ↔
        delta pk (addrWrites a ++ portWrites a pk) % 65535 = 0) ∧
      (fold (tpSum pk c m (sentHalf a pk)) = 65535 ↔ fold (tpSum pk c m pk.half) = 65535) := by
  have hk : pk.tpChecksumAt = some (pk.tpAt + 3) := if_pos hudp
  refine ⟨sentHalf_of_zero hk hlen (by omega) hzero, ?_⟩
  exact (updates_tp hk hlen (by omega) hin).valid_iff (Nat.add_pos_left hc _)
    (Nat.add_pos_left hc _)

theorem udp_gets_checksum_udpFrame :
    sentHalf newSource (udpFrame 0) 20 ≠ 0 ∧
      fold (tpSum (udpFrame 0) 25 4 (sentHalf newSource (udpFrame 0))) ≠ 65535 := by
  have hdelta : delta (udpFrame 0) (addrWrites newSource ++ portWrites newSource (udpFrame 0)) %
      65535 ≠ 0 := by decide +kernel
  have hsum : fold (tpSum (udpFrame 0) 25 4 (udpFrame 0).half) ≠ 65535 := by decide +kernel
  have hgets := udp_gets_checksum newSource (udpFrame 0) (c := 25) (m := 4) rfl (by decide)
    (by decide) (by decide) (by decide) rfl
  exact ⟨hgets.1.not.mpr hdelta, hgets.2.not.mpr hsum⟩

end OplAction

end Sdpa.Hardware
