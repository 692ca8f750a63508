import AjpGateway.Proofs.Worker.Keeping
import AjpGateway.Proofs.Worker.Opening

/-!
# The supply of a relay

A relay is bounded by the bytes that the peer has still to give.  Every packet takes some of them,
and nothing that an exchange does gives any back, so the bound never ends a relay: one that may go
on for longer does the same.

    b.nextReply.run t = (.ok reply, u) → u.supply < t.supply                  (supply_nextReply_lt)
    t.supply ≤ n → t.supply ≤ m →
      (b.relay n status?).run t = (b.relay m status?).run t                    (relay_of_supply_le)
    b.talk = b.opening >>= fun _ => do b.relay ((← get).supply + more) none            (talk_eq_more)
-/

namespace AjpGateway

open Packet

theorem Talk.lasting_supply (n : Nat) : Talk.Lasting fun t => t.supply ≤ n where
  onRequest _ _ h := h
  transmit _ _ h := h
  collect t h := Nat.le_trans (pending_receive_le t.connection.stream t.reply fromContainer) h
  decoded _ h := h
  firstPiece _ h := h
  nextPiece _ _ h := h
  writeHeaders _ _ _ _ h := h
  writeBody _ _ h := h

namespace Backend

variable {b : Backend} {t u : Talk} {reply : Reply} {status? : Option Nat}

/-- A reply was heard from a packet, and took its bytes. -/
theorem supply_nextReply_lt (h : b.nextReply.run t = (.ok reply, u)) : u.supply < t.supply := by
  obtain ⟨size, hok⟩ := receive_of_nextReply h
  rcases hr : Packet.receive t.connection.stream t.reply fromContainer with ⟨r, m, s, count⟩
  rw [hr] at hok
  obtain rfl : r = .ok size := hok
  rw [run_nextReply_of_receive hr, run_decoded] at h
  rw [← (Prod.mk.inj h).2]
  exact pending_receive_lt hr

/-- **The supply is enough**: by induction on the packets that there may be. -/
theorem relay_of_supply_le {n m : Nat} (hn : t.supply ≤ n) (hm : t.supply ≤ m) :
    (b.relay n status?).run t = (b.relay m status?).run t := by
  induction n generalizing m t status? with
  | zero =>
    rcases hnext : b.nextReply.run t with ⟨r, u⟩
    cases r with
    | error e => rw [run_relay_of_error hnext, run_relay_of_error hnext]
    | ok reply => exact absurd (supply_nextReply_lt hnext) (by omega)
  | succ n ih =>
    rcases hnext : b.nextReply.run t with ⟨r, u⟩
    cases r with
    | error e => rw [run_relay_of_error hnext, run_relay_of_error hnext]
    | ok reply =>
      have htook := supply_nextReply_lt hnext
      by_cases hg : reply.goesOn = true
      · obtain ⟨m, rfl⟩ : ∃ k, m = k + 1 := ⟨m - 1, by omega⟩
        rw [run_relay_of_goesOn hnext hg, run_relay_of_goesOn hnext hg, run_bind, run_bind]
        have hleft := (Talk.lasting_supply u.supply).heed (b := b) reply u (Nat.le_refl _)
        rcases hheed : (b.heed reply).run u with ⟨r, v⟩
        rw [hheed] at hleft
        cases r with
        | error e => rfl
        | ok _ =>
          have hless : v.supply ≤ u.supply := hleft
          dsimp only
          unfold relay.next
          exact ih (Nat.le_trans hless (by omega)) (Nat.le_trans hless (by omega))
      · obtain ⟨r, hrun⟩ := run_relay_of_not_goesOn status? hnext (Bool.eq_false_iff.2 hg)
        rw [hrun, hrun]

/-- **An exchange goes on as long as its container does**: it is the exchange that is given any
number of packets more. -/
theorem talk_eq_more (b : Backend) (more : Nat) :
    b.talk = (do b.opening; b.relay ((← get).supply + more) none : Talking (Nat × Bool)) := by
  have hrest : (do b.relay (← get).supply none : Talking (Nat × Bool)) =
      (do b.relay ((← get).supply + more) none : Talking (Nat × Bool)) := by
    refine ExceptT.ext (funext fun t => ?_)
    rw [run_bind_of_ok (run_get t), run_bind_of_ok (run_get t)]
    exact relay_of_supply_le (Nat.le_refl _) (Nat.le_add_right ..)
  rw [talk_eq]
  exact bind_congr fun _ => hrest

end Backend

end AjpGateway
