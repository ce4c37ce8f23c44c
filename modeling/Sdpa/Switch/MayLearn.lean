import Sdpa.Switch.Handlers
import Sdpa.Switch.Megaflow

/-!
# Translations that stand for no packet

Revalidation translates flows for which no packet has been counted, with `may_learn`
off. A learn action heeds that and so does `xlate_normal`, but a `goto_fp` does not.
Such a translation leaves the switch as it is if no `goto_fp` that it reaches computes
a state to store other than the stored one.
-/
namespace Sdpa.Switch

open Sdpa.Lib.Simulation

variable {hash : Key → BitVec 32}

/-! ## Transitions that store nothing new -/

/-- State 0 is not stored, and the state that is there makes no difference. -/
def FpDecision.stays (d : FpDecision) (found : FpFound hash) : Bool :=
  d.next == 0 || d.next == found.status

theorem stays_iff {d : FpDecision} {found : FpFound hash} :
    d.stays found = true ↔ d.next = 0 ∨ d.next = found.status := by
  rw [FpDecision.stays, Bool.or_eq_true, beq_iff_eq, beq_iff_eq]

/-- The applications are as before exactly if the transition stores nothing new. -/
theorem updateState_eq_self_iff {g : GApps hash} {bitmap : BitVec 8} {fl : Flow}
    {found : FpFound hash} (h : fpLookup g bitmap fl = .ok (.ok found)) (next : BitVec 32) :
    updateState g (bitmap.setWidth 32) found.key next = g ↔ next = 0 ∨ next = found.status := by
  have hlookup : FpPacket.lookup ⟨bitmap, fl, 0⟩ g = .ok (.ok found) := h
  unfold updateState
  by_cases hzero : next = 0
  · rw [if_pos hzero]
    exact iff_of_true rfl (.inl hzero)
  rw [if_neg hzero, or_iff_right hzero]
  constructor
  · intro hsame
    have hafter := lookup_writeStatus_self hlookup next
    change FpPacket.lookup _ (g.writeStatus (bitmap.setWidth 32) found.key next) = _ at hafter
    rw [hsame, hlookup] at hafter
    exact (congrArg FpFound.status (Except.ok.inj (Except.ok.inj hafter))).symm
  · rintro rfl
    obtain ⟨app, e, hfind, _, hfirst, hfound⟩ := lookup_eq_ok.mp hlookup
    have hstatus : found.status = e.lastStatus := congrArg FpFound.status hfound
    refine GApps.modify_eq_self fun app' hfind' => ?_
    obtain rfl := Option.some.inj (hfind.symm.trans hfind')
    have hsame : app.pst.stEntrys.write found.key (StMatchEntry.setStatus found.status)
        (StMatchEntry.setStatus_data found.status) = app.pst.stEntrys :=
      Entries.write_eq_self fun e' he' => by
        obtain rfl := Option.some.inj (hfirst.symm.trans he')
        rw [hstatus]
        rfl
    unfold ControllApp.writeStatus
    rw [hsame]
    rfl

/-! ## Whether a translation comes upon another one -/

/-- A `goto_fp` that stops where the one of the switch would store another state, and
notes it. -/
def probe (undetermined : NoValue → Bool) (tcpFlags : BitVec 16) (g : GApps hash)
    (bitmap : BitVec 8) : XlateM Bool PUnit := fun s => do
  match ← fpLookup g bitmap s.2.flow with
  | .error why => return (⟨⟩, s.1, { s.2 with exit := s.2.exit || undetermined why })
  | .ok found =>
    let d ← fpDecide s.2.flow tcpFlags found
    if d.stays found then
      return (⟨⟩, s.1, { s.2 with
        flow := d.flow, exit := s.2.exit || shouldStop undetermined d.drop })
    else return (⟨⟩, true, { s.2 with exit := true })

def probeEffects (undetermined : NoValue → Bool) (xin : XlateIn) (s : Shared hash) :
    Effects Bool where
  gotoFp := probe undetermined xin.tcpFlags s.apps
  learn := fun xbridge input view changes =>
    .ok ((learnMac false xbridge input view s.macs).1, changes)

/-- Whether the translation reaches a `goto_fp` that computes a non-zero state other than the
stored one. -/
def changesState (undetermined : NoValue → Bool) (env : Env) (xin : XlateIn) (s : Shared hash) :
    Bool :=
  match xlateActions env xin (probeEffects undetermined xin s) false with
  | .ok (changes, _) => changes
  | .error _ => false

/-- A call with `may_learn` off. -/
def withoutLearning (xin : XlateIn) : XlateIn := { xin with mayLearn := false }

/-- A change stops the translation. -/
def StopsAtChange (changes exit : Bool) : Prop := changes = true → exit = true

theorem StopsAtChange.unchanged {changes exit : Bool} (h : StopsAtChange changes exit)
    (hexit : exit = false) : changes = false := by
  cases changes with
  | false => rfl
  | true => exact (h rfl).symm.trans hexit

/-- What has been seen so far, and what the switch has done by then. -/
abbrev probeSpec (s : Shared hash) : XlateSpec Bool (Shared hash) :=
  ctxSpec (· = false) (fun _ => False) StopsAtChange fun changes s' => changes = false → s' = s

/-- A `goto_fp` that stores nothing new changes at most how translation goes on. -/
theorem probe_rel (undetermined : NoValue → Bool) (tcpFlags : BitVec 16) (s : Shared hash)
    (bitmap : BitVec 8) (c : XlateCtx) :
    (∃ e, probe undetermined tcpFlags s.apps bitmap (false, c) = .error e ∧
      gotoFp undetermined tcpFlags bitmap (s, c) = .error e) ∨
    (∃ c', probe undetermined tcpFlags s.apps bitmap (false, c) = .ok (⟨⟩, false, c') ∧
      gotoFp undetermined tcpFlags bitmap (s, c) = .ok (⟨⟩, s, c')) ∨
    probe undetermined tcpFlags s.apps bitmap (false, c) =
      .ok (⟨⟩, true, { c with exit := true }) := by
  unfold probe gotoFp xlateFp
  dsimp only
  cases hl : fpLookup s.apps bitmap c.flow with
  | error e => exact .inl ⟨e, rfl, rfl⟩
  | ok found =>
    cases found with
    | error why => exact .inr (.inl ⟨_, rfl, rfl⟩)
    | ok found =>
      dsimp only [bind, Except.bind]
      cases fpDecide c.flow tcpFlags found with
      | error e => exact .inl ⟨e, rfl, rfl⟩
      | ok d =>
        dsimp only
        by_cases hstays : d.stays found = true
        · rw [if_pos hstays, (updateState_eq_self_iff hl d.next).mpr (stays_iff.mp hstays)]
          exact .inr (.inl ⟨_, rfl, rfl⟩)
        · rw [if_neg hstays]
          exact .inr (.inr rfl)

theorem sim_probe (undetermined : NoValue → Bool) (tcpFlags : BitVec 16) (s : Shared hash)
    (bitmap : BitVec 8) :
    Sim (probeSpec s) (fun t => t.2.exit = false) (probe undetermined tcpFlags s.apps bitmap)
      (gotoFp undetermined tcpFlags bitmap) := by
  refine ⟨?_, fun t hi hexit _ => StopsAtChange.unchanged hi hexit, ?_⟩
  · rintro ⟨changes, c⟩ r hi hexit hr
    obtain rfl : changes = false := StopsAtChange.unchanged hi hexit
    refine ⟨?_, fun _ _ => trivial⟩
    rcases probe_rel undetermined tcpFlags s bitmap c with ⟨e, he, _⟩ | ⟨c', hc, _⟩ | hc
    · cases he.symm.trans hr
    · obtain rfl := Except.ok.inj (hc.symm.trans hr)
      exact fun hchange => by cases hchange
    · obtain rfl := Except.ok.inj (hc.symm.trans hr)
      exact fun _ => rfl
  · rintro ⟨changes, c⟩ ⟨s', _⟩ hi hexit ⟨happ, rfl⟩ hg
    obtain rfl : changes = false := StopsAtChange.unchanged hi hexit
    obtain rfl := happ rfl
    rcases probe_rel undetermined tcpFlags s' bitmap c with ⟨e, he, he'⟩ | ⟨c', hc, hc'⟩ | hc
    · rw [he, he']
      rfl
    · rw [hc, hc']
      exact ⟨rfl, fun _ => rfl, rfl⟩
    · rw [hc] at hg
      cases hg

/-! ## Translations without a packet -/

/-- A translation with `may_learn` off that reaches no such `goto_fp` leaves applications and
learned addresses alone. -/
theorem unchanged_of_not_changesState (undetermined : NoValue → Bool) (env : Env) (xin : XlateIn)
    {s s' : Shared hash} {out : XlateOut}
    (hstays : changesState undetermined env (withoutLearning xin) s = false)
    (h : xlate undetermined env (withoutLearning xin) s = .ok (s', out)) : s' = s := by
  have hfx : SimEffects (probeSpec s) (probeEffects undetermined (withoutLearning xin) s)
      (switchEffects undetermined (withoutLearning xin)) := by
    refine ⟨sim_probe undetermined xin.tcpFlags s, fun xbridge input view => ⟨?_, ?_, ?_⟩⟩
    · intro t r hi _ hr
      obtain ⟨_, hlearn, rfl⟩ := onState_ok hr
      obtain rfl := Except.ok.inj hlearn
      exact ⟨hi, fun _ _ => trivial⟩
    · exact fun _ _ _ hg => hg
    · rintro ⟨changes, c⟩ ⟨s₁, _⟩ _ _ ⟨happ, rfl⟩ (rfl : changes = false)
      obtain rfl := happ rfl
      exact ⟨rfl, fun _ => rfl, rfl⟩
  have hsame := xlateActions_effects env (withoutLearning xin) hfx (fun _ _ _ => rfl)
    (fun _ hi _ => hi.unchanged rfl) (a := false) (b := s) (fun hne => by cases hne) (fun _ => rfl)
  change xlateActions env (withoutLearning xin) _ s = _ at h
  unfold changesState at hstays
  split at hstays
  · rename_i changes out' hrun
    rw [hrun] at hsame
    obtain ⟨s₁, hreal, hs₁⟩ := hsame hstays
    rw [h] at hreal
    exact (Prod.mk.inj (Except.ok.inj hreal)).1.trans (hs₁ hstays)
  · rename_i e hrun
    rw [hrun] at hsame
    rw [hsame not_false] at h
    cases h

/-- 10.0.0.1 has sent more than one packet, and has been blocked. -/
def blocked : GApps hashString :=
  GApps.start.append (firstOnlyApp (Entries.init.insert ⟨inetNtoa (htonl 0x0a000001), 3⟩)) rfl

/-- A revalidation finds 10.0.0.1 in state 3, and leaves it there. -/
theorem unchanged_of_not_changesState_blocked :
    (fpLookup blocked 1 (udpFrom 0x0a000001)).map (Except.map FpFound.status) = .ok (.ok 3) ∧
    ∃ out, xlate (fun _ => false) appEnv (withoutLearning (missIn 0 (udpFrom 0x0a000001)))
      ⟨blocked, []⟩ = .ok (⟨blocked, []⟩, out) := by
  refine ⟨by decide +kernel, ?_⟩
  have hrun : (xlate (fun _ => false) appEnv (withoutLearning (missIn 0 (udpFrom 0x0a000001)))
      ⟨blocked, []⟩).map (fun r => r.2.odp) = .ok [] := by decide +kernel
  obtain ⟨⟨s', out⟩, hrun, _⟩ := map_eq_ok hrun
  have hsame : s' = ⟨blocked, []⟩ :=
    unchanged_of_not_changesState _ _ _ (by decide +kernel) hrun
  exact ⟨out, hsame ▸ hrun⟩

/-- A revalidation of the flow of 10.0.0.1 moves it from state 1 to state 2. -/
theorem revalidation_changes_state :
    (xlate (fun _ => false) appEnv (withoutLearning (missIn 0 (udpFrom 0x0a000001)))
      ⟨firstOnly, []⟩).map (fun r => statuses r.1.apps 1 (inetNtoa (htonl 0x0a000001))) =
      .ok (some [2]) ∧
    statuses firstOnly 1 (inetNtoa (htonl 0x0a000001)) = some [1] :=
  ⟨by decide +kernel, by decide +kernel⟩

end Sdpa.Switch
