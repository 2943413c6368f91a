import RegistrySync.Proofs.ChangeSignal.Queue
import RegistrySync.Proofs.Configuration.LastWriter
import RegistrySync.Synchronizer

/-!
What the writer does: it takes the request in the slot and runs a pass for it. The configuration
stays as the callers have left it.
-/

namespace RegistrySync.Synchronizer

theorem acceptRequest_eq {s : Synchronizer} {n : Nat} (hreceiving : s.signal.isReceiving = true)
    (hslot : s.signal.slot = some n)
    : s.acceptRequest =
        { s with
          signal := s.signal.vacate n .accepted
          accepted := s.accepted + 1
          isBusy := true } := by
  unfold acceptRequest
  rw [ChangeSignal.accept_eq_vacate hreceiving hslot]

theorem serve_eq_of_idle {n : Nat} (s : Synchronizer) (hidle : s.isBusy = false)
    (hreceiving : s.signal.isReceiving = true) (hslot : s.signal.slot = some n)
    : s.serve = s.acceptRequest.runPass := by
  unfold serve acceptRequest
  simp [hidle, ChangeSignal.accept, hreceiving, hslot]

theorem configuration_acceptRequest (s : Synchronizer)
    : s.acceptRequest.configuration = s.configuration := by
  unfold acceptRequest
  split <;> rfl

theorem configuration_serve (s : Synchronizer) : s.serve.configuration = s.configuration := by
  have hpass (s : Synchronizer) : s.runPass.configuration = s.configuration := rfl
  unfold serve
  cases hbusy : s.isBusy with
  | true => simp [hbusy, hpass]
  | false =>
    cases hbusy : s.acceptRequest.isBusy <;> simp [hbusy, hpass, configuration_acceptRequest]

theorem configuration_drain (s : Synchronizer) : s.drain.configuration = s.configuration := by
  unfold drain
  generalize s.signal.requests + 1 = n
  induction n with
  | zero => rfl
  | succ n ih => rw [Nat.repeat, configuration_serve, ih]

theorem configuration_sink (change : Change) (s : Synchronizer)
    : (sink change s).2.configuration = s.configuration.next change := by
  unfold sink
  simp only [configuration_drain]
  unfold submit Configuration.next
  cases s.configuration.apply change <;> rfl

end RegistrySync.Synchronizer
