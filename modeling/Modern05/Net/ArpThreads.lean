import Modern05.Framework.Lock
import Modern05.Net.ArpTable

/-! # Calls of the ARP table by any number of threads

    `put` and the two functions `find` of `ArpDriver` read and write the maps between `lock` and
    `unlock` of a `kspinlock` (`include/common/kspinlock.hpp`), which tests and sets an atomic flag
    until it was clear. The ARP thread calls them, the thread that starts the card does, and so does
    the handler of the card's interrupts on the stack of whatever thread it has interrupted.

    Here every caller is a thread of its own and all steps interleave in any way. That a handler
    keeps the thread under it from going on is left out: this takes steps away and adds none.

    * `Sequential.object_eq`: calls one after the other leave what their calls of `put` leave.
    * `arp_calls_linearizable`: each call that has returned gives the answer of the table after the
      calls that returned before it.
-/

namespace Modern05

open LTS Locked

/-! ## Calls -/

inductive ArpResult where
  | none
  | eth (address : Option EthernetAddress)
  | ip (address : Option IPv4Address)
  deriving DecidableEq

/-- What a call does while it has the lock. -/
def ArpCall.section_steps : ArpCall → List ArpStep
  | .put eth ip => [.put_eth2ip eth ip, .put_ip2eth ip eth]
  | .find ip => [.find_ip2eth ip]
  | .find_mac mac => [.find_eth2ip mac]

theorem ArpCall.steps_eq (c : ArpCall) : c.steps = .lock :: c.section_steps ++ [.unlock] := by
  cases c <;> rfl

/-- A step on the maps, with the result of the call. -/
def ArpStep.work (step : ArpStep) (x : ArpDriver × ArpResult) : ArpDriver × ArpResult :=
  ((step.exec x.1).getD x.1,
    match step with
    | .find_ip2eth ip => .eth (x.1.find ip)
    | .find_eth2ip mac => .ip (x.1.find_mac mac)
    | _ => x.2)

def ArpCall.body (c : ArpCall) : List (ArpDriver × ArpResult → ArpDriver × ArpResult) :=
  c.section_steps.map ArpStep.work

/-- The runs of any threads on a table that starts empty. The flag stands for `lock_`. -/
def arp_threads (Thread : Type) [DecidableEq Thread] :
    System (Locked.State Thread ArpCall ArpDriver ArpResult) (Locked.Event Thread ArpCall) :=
  Locked.system ArpCall.body .empty .none

/-! ## One call after the other -/

theorem run_body_put (a : ArpDriver) (eth : EthernetAddress) (ip : IPv4Address) :
    run (ArpCall.put eth ip).body (a, .none) = (a.put eth ip, .none) := rfl

theorem run_body_find (a : ArpDriver) (ip : IPv4Address) :
    run (ArpCall.find ip).body (a, .none) = (a, .eth (a.find ip)) := rfl

theorem run_body_find_mac (a : ArpDriver) (mac : EthernetAddress) :
    run (ArpCall.find_mac mac).body (a, .none) = (a, .ip (a.find_mac mac)) := rfl

section log

variable {Thread : Type} {log : List (Return Thread ArpCall ArpResult)} {a : ArpDriver}

/-- What the calls that have returned have put. -/
def puts_of (log : List (Return Thread ArpCall ArpResult)) :
    List (EthernetAddress × IPv4Address) :=
  log.filterMap fun ret => match ret.op with
    | .put eth ip => some (eth, ip)
    | _ => none

/-- What a call returns after these calls of `put`: `find` by IP address gives the hardware
    address that was put last, whatever it was put for. -/
def answer (ps : List (EthernetAddress × IPv4Address)) : ArpCall → ArpResult
  | .put _ _ => .none
  | .find _ => .eth (ps.getLast?.map Prod.fst)
  | .find_mac mac => .ip ((ps.reverse.find? (fun p => p.1 == mac)).map Prod.snd)

theorem Sequential.object_eq (h : Sequential ArpCall.body .empty .none log a) :
    a = ArpDriver.puts (puts_of log) := by
  induction h with
  | nil => rfl
  | snoc i op _ ih =>
    subst ih
    cases op with
    | put eth ip => simp [run_body_put, puts_of, ArpDriver.puts]
    | find ip => simp [run_body_find, puts_of]
    | find_mac mac => simp [run_body_find_mac, puts_of]

/-- The result of a call after others. -/
theorem Sequential.answer_eq (h : Sequential ArpCall.body .empty .none log a) (c : ArpCall) :
    (run c.body (a, .none)).2 = answer (puts_of log) c := by
  rw [Sequential.object_eq h]
  cases c with
  | put eth ip => rfl
  | find ip => simp [run_body_find, answer, ArpDriver.find_puts]
  | find_mac mac => simp [run_body_find_mac, answer, ArpDriver.find_mac_puts]

end log

/-- No section is longer than that of `put`. -/
theorem ArpCall.length_body_le (c : ArpCall) : c.body.length ≤ 2 := by
  cases c <;> simp [ArpCall.body, ArpCall.section_steps]

/-- **The table behind its lock**, for any threads and any interleaving of their steps. The flag is
    set exactly while some thread is between `lock` and `unlock`, and no two threads are. Each call
    that has returned has the result of the same calls made one after the other in the order of
    their returns. A thread with the lock needs at most three more steps of its own to give it
    back. -/
theorem arp_calls_linearizable {Thread : Type} [DecidableEq Thread]
    (s : Locked.State Thread ArpCall ArpDriver ArpResult) (hs : Reachable (arp_threads Thread) s) :
    (s.flag = true ↔ ∃ i, (s.phase i).Inside) ∧
    (∀ i j, (s.phase i).Inside → (s.phase j).Inside → i = j) ∧
    (∀ before ret after, s.log = before ++ ret :: after →
      ret.result = answer (puts_of before) ret.op) ∧
    (∀ i, (s.phase i).Inside → ∃ es s', es.length ≤ 3 ∧ (∀ e ∈ es, e.thread = i) ∧
      Steps (arp_threads Thread) s es s' ∧ s'.flag = false) := by
  have hinv := Locked.inv_of_reachable s hs
  refine ⟨?_, fun i j => hinv.at_most_one, ?_, ?_⟩
  · constructor
    · intro hflag
      obtain ⟨x, -, ⟨hclear, -, -⟩ | ⟨-, i, op, rest, r, hholds⟩⟩ := hinv
      · simp [hflag] at hclear
      · exact ⟨i, by rw [hholds.phase]; trivial⟩
    · intro ⟨i, hi⟩
      obtain ⟨x, -, ⟨-, hnone, -⟩ | ⟨hset, -⟩⟩ := hinv
      · exact absurd hi (hnone i)
      · exact hset
  · intro before ret after hlog
    obtain ⟨x, hsequential, -⟩ := hinv
    obtain ⟨y, hbefore, hresult⟩ := hsequential.split hlog
    rw [hresult, Sequential.answer_eq hbefore]
  · intro i hi
    cases hphase : s.phase i with
    | idle =>
      rw [hphase] at hi
      exact hi.elim
    | waiting op =>
      rw [hphase] at hi
      exact hi.elim
    | inside op rest r =>
      obtain ⟨x, -, -, hholds⟩ := hinv.holds hphase
      obtain ⟨before, hbody, -⟩ := hholds.ran
      obtain ⟨es, s', hlength, hown, hsteps, hflag⟩ :=
        Locked.releases ArpCall.body .empty .none hphase
      refine ⟨es, s', ?_, hown, hsteps, hflag⟩
      have hle := op.length_body_le
      rw [hbody, List.length_append] at hle
      omega

/-! ### Two threads -/

def gateway_put : ArpCall := .put (Vector.replicate 6 2) (Vector.replicate 4 10)
def gateway_lookup : ArpCall := .find_mac (Vector.replicate 6 2)

/-- One thread puts an address while another one asks for it and has to wait. -/
theorem reachable_two_calls :
    ∃ (s : Locked.State Bool ArpCall ArpDriver ArpResult) (r₁ r₂ : ArpResult),
      Reachable (arp_threads Bool) s ∧
      s.log = [⟨true, gateway_put, r₁⟩, ⟨false, gateway_lookup, r₂⟩] := by
  have h₀ : Reachable (arp_threads Bool) ⟨false, .empty, fun _ => .idle, []⟩ :=
    .init ⟨rfl, rfl, fun _ => rfl, rfl⟩
  have h₁ := h₀.step (l := Event.call true gateway_put) ⟨rfl, rfl⟩
  have h₂ := h₁.step (l := Event.call false gateway_lookup) ⟨rfl, rfl⟩
  have h₃ := h₂.step (l := Event.test_and_set true) ⟨_, rfl, rfl⟩
  have h₄ := h₃.step (l := Event.test_and_set false) ⟨_, rfl, rfl⟩
  have h₅ := h₄.step (l := Event.work true) ⟨_, _, _, _, rfl, rfl⟩
  have h₆ := h₅.step (l := Event.work true) ⟨_, _, _, _, rfl, rfl⟩
  have h₇ := h₆.step (l := Event.release true) ⟨_, _, rfl, rfl⟩
  have h₈ := h₇.step (l := Event.test_and_set false) ⟨_, rfl, rfl⟩
  have h₉ := h₈.step (l := Event.work false) ⟨_, _, _, _, rfl, rfl⟩
  have h₁₀ := h₉.step (l := Event.release false) ⟨_, _, rfl, rfl⟩
  exact ⟨_, _, _, h₁₀, rfl⟩

/-- It gets the address. -/
theorem waiting_lookup_answered :
    ∃ s : Locked.State Bool ArpCall ArpDriver ArpResult, Reachable (arp_threads Bool) s ∧
      ∃ ret ∈ s.log, ret.thread = false ∧ ret.result = .ip (some (Vector.replicate 4 10)) := by
  obtain ⟨s, r₁, r₂, hs, hlog⟩ := reachable_two_calls
  have hresult := (arp_calls_linearizable s hs).2.2.1 [⟨true, gateway_put, r₁⟩]
    ⟨false, gateway_lookup, r₂⟩ [] hlog
  refine ⟨s, hs, ⟨false, gateway_lookup, r₂⟩, ?_, rfl, ?_⟩
  · simp [hlog]
  · rw [hresult]
    rfl

end Modern05
