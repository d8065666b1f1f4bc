import Mathlib.Data.List.Basic
import QuicproAsync.PhpValue

/-!
# Draining the XDP ring

In a build with AF_XDP, `quicpro_poll` takes the packets that wait in the receive ring before it
reads from the socket. `quicpro_xdp_drain` of `poll.c` reserves up to 64 descriptors at a time and
hands their packets to quiche, as long as it gets all 64.

`xsk_ring_cons__peek` reserves what there is, and what is reserved is not offered again. So when
fewer than 64 packets are left they are reserved, but the loop ends without handing them on: the
ring has no packet left to offer, and up to 63 were dropped.

The packet of an index is looked up by `xsk_ring_cons__comp_addr`. That is the accessor of
completion rings, which hold addresses of 8 bytes and not descriptors of 16 as a receive ring does
(for these there is `xsk_ring_cons__rx_desc`). What it yields here is a parameter, `compAddr`, and
that it yields the packets of the ring is a condition of the result.
-/

namespace QuicproAsync.XdpDrain

open Php

/-! ### The ring -/

/-- The receive ring as its consumer sees it: all packets that were put in it, how many of them
    have been reserved, and how many were given back. In libbpf the two numbers are `uint32_t`
    counters that wrap. Only differences of at most the size of the ring and the low bits of an
    index are ever used, and the size divides 2^32, so that nothing depends on the wrap. -/
structure Ring where
  produced : List Bytes
  cachedCons : Nat
  consumer : Nat
  consumer_le : consumer ≤ cachedCons
  cachedCons_le : cachedCons ≤ produced.length

namespace Ring

/-- The packets that can be reserved. -/
def waiting (ring : Ring) : List Bytes := ring.produced.drop ring.cachedCons

/-- What `xsk_ring_cons__peek` returns. -/
def available (ring : Ring) (nb : Nat) : Nat := min nb ring.waiting.length

/-- What `xsk_ring_cons__peek` leaves. The index is that of the first descriptor that was not
    reserved before. -/
def peek (ring : Ring) (nb : Nat) : Ring :=
  { ring with
    cachedCons := ring.cachedCons + ring.available nb
    consumer_le := Nat.le_trans ring.consumer_le (Nat.le_add_right _ _)
    cachedCons_le := by
      have hle := ring.cachedCons_le
      rw [available, waiting, List.length_drop]
      omega }

/-- `xsk_ring_cons__release`. -/
def release (ring : Ring) (nb : Nat) (hreserved : ring.consumer + nb ≤ ring.cachedCons) : Ring :=
  { ring with consumer := ring.consumer + nb, consumer_le := hreserved }

theorem release_peek {ring : Ring} {nb : Nat} (hall : ring.available nb = nb) :
    (ring.peek nb).consumer + nb ≤ (ring.peek nb).cachedCons := by
  have hle := ring.consumer_le
  change ring.consumer + nb ≤ ring.cachedCons + ring.available nb
  omega

@[simp] theorem waiting_peek (ring : Ring) (nb : Nat) :
    (ring.peek nb).waiting = ring.waiting.drop nb := by
  change ring.produced.drop (ring.cachedCons + ring.available nb) = _
  rw [← List.drop_drop]
  change ring.waiting.drop (min nb ring.waiting.length) = _
  rcases Nat.le_total nb ring.waiting.length with hsome | hall
  · rw [Nat.min_eq_left hsome]
  · rw [Nat.min_eq_right hall, List.drop_length, List.drop_of_length_le hall]

@[simp] theorem waiting_release (ring : Ring) (nb : Nat)
    (hreserved : ring.consumer + nb ≤ ring.cachedCons) :
    (ring.release nb hreserved).waiting = ring.waiting := rfl

end Ring

/-! ### The loop -/

def batch : Nat := 64

/-- The packets that were handed to `quiche_conn_recv`, their number, and the ring. -/
structure Drained where
  delivered : List Bytes
  packets : Nat
  ring : Ring

section

variable (compAddr : Nat → Bytes)

/-- `compAddr idx` is the packet, in the umem, of what `xsk_ring_cons__comp_addr` points to. -/
def quicproXdpDrain (ring : Ring) : Drained :=
  if hfull : ring.available batch = batch then
    let idx := ring.cachedCons
    let delivered := (List.range batch).map fun i => compAddr (idx + i)
    let rest := quicproXdpDrain ((ring.peek batch).release batch (Ring.release_peek hfull))
    ⟨delivered ++ rest.delivered, batch + rest.packets, rest.ring⟩
  else ⟨[], 0, ring.peek batch⟩
termination_by ring.waiting.length
decreasing_by
  rw [Ring.waiting_release, Ring.waiting_peek, List.length_drop]
  rw [Ring.available, batch] at hfull
  rw [batch]
  omega

/-- **The drain leaves nothing behind**: the packets that wait are delivered, each once and in
    their order, and their number is returned. -/
structure DrainsAll (ring : Ring) : Prop where
  delivered : (quicproXdpDrain compAddr ring).delivered = ring.waiting
  packets : (quicproXdpDrain compAddr ring).packets = ring.waiting.length

/-! ### What is delivered -/

/-- What the accessor yields for the next indices. -/
def looked (start count : Nat) : List Bytes := (List.range count).map fun i => compAddr (start + i)

theorem looked_add (start count more : Nat) :
    looked compAddr start (count + more) =
      looked compAddr start count ++ looked compAddr (start + count) more := by
  simp only [looked, List.range_add, List.map_append, List.map_map, Function.comp_def,
    Nat.add_assoc]

/-- Whole batches are delivered, and nothing is waiting afterwards. -/
theorem quicproXdpDrain_spec (ring : Ring) :
    (quicproXdpDrain compAddr ring).delivered =
        looked compAddr ring.cachedCons (batch * (ring.waiting.length / batch)) ∧
      (quicproXdpDrain compAddr ring).packets = batch * (ring.waiting.length / batch) ∧
      (quicproXdpDrain compAddr ring).ring.waiting = [] := by
  fun_induction quicproXdpDrain compAddr ring with
  | case1 ring hfull idx delivered rest ih =>
    -- one batch is delivered, and the rest is what the other rounds leave
    have hlong : batch ≤ ring.waiting.length := by
      rw [Ring.available] at hfull
      omega
    have hbatches : batch * (ring.waiting.length / batch) =
        batch + batch * ((ring.waiting.length - batch) / batch) := by
      rw [Nat.div_eq_sub_div (by decide) hlong, Nat.mul_add, Nat.mul_one, Nat.add_comm]
    have hindex : ((ring.peek batch).release batch (Ring.release_peek hfull)).cachedCons =
        ring.cachedCons + batch := congrArg (ring.cachedCons + ·) hfull
    rw [Ring.waiting_release, Ring.waiting_peek, List.length_drop, hindex] at ih
    rw [hbatches, looked_add]
    exact ⟨congrArg (looked compAddr ring.cachedCons batch ++ ·) ih.1,
      congrArg (batch + ·) ih.2.1, ih.2.2⟩
  | case2 ring hfew =>
    have hshort : ring.waiting.length < batch := by
      rw [Ring.available] at hfew
      omega
    rw [Nat.div_eq_of_lt hshort]
    refine ⟨rfl, rfl, ?_⟩
    rw [Ring.waiting_peek, List.drop_of_length_le (Nat.le_of_lt hshort)]

/-- **The drain leaves nothing behind** if and only if the number of packets is a multiple of 64
    and the accessor yields each of them: for every ring, whatever was reserved before. -/
theorem drains_all_iff (ring : Ring) :
    DrainsAll compAddr ring ↔ 64 ∣ ring.waiting.length ∧
      ∀ i packet, ring.waiting[i]? = some packet → compAddr (ring.cachedCons + i) = packet := by
  obtain ⟨hdelivered, hpackets, -⟩ := quicproXdpDrain_spec compAddr ring
  have hmultiple : batch * (ring.waiting.length / batch) = ring.waiting.length ↔
      64 ∣ ring.waiting.length := by
    rw [batch]
    omega
  have hlooked : looked compAddr ring.cachedCons ring.waiting.length = ring.waiting ↔
      ∀ i packet, ring.waiting[i]? = some packet → compAddr (ring.cachedCons + i) = packet := by
    constructor
    · intro hsame i packet hpacket
      obtain ⟨hi, rfl⟩ := List.getElem?_eq_some_iff.mp hpacket
      have hhere := congrArg (·[i]?) hsame
      simpa [looked, hi] using hhere
    · intro hall
      apply List.ext_getElem
      · simp [looked]
      · intro i hleft hright
        simpa [looked] using hall i _ (List.getElem?_eq_getElem hright)
  rw [← hmultiple, ← hlooked]
  constructor
  · intro hall
    have hsame := hpackets.symm.trans hall.packets
    rw [hsame] at hdelivered
    exact ⟨hsame, hdelivered.symm.trans hall.delivered⟩
  · rintro ⟨hsame, hpackets'⟩
    rw [hsame] at hdelivered hpackets
    exact ⟨hdelivered.trans hpackets', hpackets⟩

end

/-! ### One packet -/

/-- A ring in which the given packets wait. -/
def ringOf (packets : List Bytes) : Ring := ⟨packets, 0, 0, Nat.le_refl 0, Nat.zero_le _⟩

/-- An accessor that yields the packets of a list. -/
def accessorOf (packets : List Bytes) (idx : Nat) : Bytes := packets.getD idx []

/-- One packet waits, and the accessor yields it. The drain returns zero, and neither it nor the
    next one delivers it. -/
theorem single_packet_dropped :
    (quicproXdpDrain (accessorOf [[7#8]]) (ringOf [[7#8]])).delivered = [] ∧
      (quicproXdpDrain (accessorOf [[7#8]]) (ringOf [[7#8]])).packets = 0 ∧
      (quicproXdpDrain (accessorOf [[7#8]])
        (quicproXdpDrain (accessorOf [[7#8]]) (ringOf [[7#8]])).ring).delivered = [] ∧
      ¬ DrainsAll (accessorOf [[7#8]]) (ringOf [[7#8]]) := by
  obtain ⟨hdelivered, hpackets, hwaiting⟩ :=
    quicproXdpDrain_spec (accessorOf [[7#8]]) (ringOf [[7#8]])
  have hagain := (quicproXdpDrain_spec (accessorOf [[7#8]])
    (quicproXdpDrain (accessorOf [[7#8]]) (ringOf [[7#8]])).ring).1
  rw [hwaiting] at hagain
  refine ⟨hdelivered, hpackets, hagain, fun hall => ?_⟩
  have hone := hpackets.symm.trans hall.packets
  exact absurd hone (by decide)

end QuicproAsync.XdpDrain
