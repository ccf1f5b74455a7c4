-- SUMMARY: The offset that an exchange of four timestamps gives: its value in nanoseconds, when 64 bits hold it, and its distance from the true offset.
import TriHaRd.Node.Drift

/-!
# The offset of an exchange

Cases 'U' and 'D' of `handle_message` compute the same expression, half of
`rec_ts-org_ts+xmt_ts-recv_ts`. Every operator in it goes through `standardize`,
and the halving goes through `double`. Read as nanoseconds it is the NTP offset,
rounded down.
-/

namespace TriHaRd

open Truncate

namespace Timespec

theorem ns_exchange (orgTs recTs xmtTs recvTs : Timespec) :
    (recTs - orgTs + xmtTs - recvTs).ns = recTs.ns - orgTs.ns + xmtTs.ns - recvTs.ns := by
  rw [ns_sub, ns_add, ns_sub]

end Timespec

namespace ENode

theorem ns_driftOffset (msg : DriftMsg) (recvTs : Timespec) :
    (driftOffset msg recvTs).ns =
      (msg.recTs.ns - msg.orgTs.ns + msg.xmtTs.ns - recvTs.ns) / 2 := by
  rw [driftOffset, Timespec.ns_half (Timespec.normal_sub _ _), Timespec.ns_exchange]

theorem ns_peerClockOffset (s : ENode) (msg : UntaintMsg) :
    (s.peerClockOffset msg).ns =
      (msg.recTs.ns - msg.orgTs.ns + msg.xmtTs.ns - s.untaintRecvTs.ns) / 2 := by
  rw [peerClockOffset, Timespec.ns_half (Timespec.normal_sub _ _), Timespec.ns_exchange]

end ENode

-- ---------------------------------------------------------------------------
-- 64 bits
-- ---------------------------------------------------------------------------

/-! `time_t`, `long` and `long long` have 64 bits, and a message may carry any values of them. As
long as no sum overflows, the integers compute what the code does. -/

/-- A value of these types. -/
def Fits64 (n : ℤ) : Prop := -2 ^ 63 ≤ n ∧ n < 2 ^ 63

instance (n : ℤ) : Decidable (Fits64 n) := inferInstanceAs (Decidable (_ ∧ _))

/-- What 64 bits keep of a result. -/
def wrap64 (n : ℤ) : ℤ := n.bmod (2 ^ 64)

theorem wrap64_of_fits {n : ℤ} (h : Fits64 n) : wrap64 n = n := by
  obtain ⟨hlo, hhi⟩ := h
  apply Int.bmod_eq_of_le <;> omega

namespace Timespec

def Fits (ts : Timespec) : Prop := Fits64 ts.tvSec ∧ Fits64 ts.tvNsec

/-- `operator+` does not overflow, neither in the sums nor when it carries whole seconds. -/
def AddFits (lhs rhs : Timespec) : Prop :=
  Fits ⟨lhs.tvSec + rhs.tvSec, lhs.tvNsec + rhs.tvNsec⟩ ∧ (lhs + rhs).Fits

def AddNsecFits (lhs : Timespec) (rhs : ℤ) : Prop :=
  Fits64 rhs ∧ Fits ⟨lhs.tvSec, lhs.tvNsec + rhs⟩ ∧ (lhs + rhs).Fits

def SubFits (lhs rhs : Timespec) : Prop :=
  Fits ⟨lhs.tvSec - rhs.tvSec, lhs.tvNsec - rhs.tvNsec⟩ ∧ (lhs - rhs).Fits

/-- None of the sums in `rec_ts-org_ts+xmt_ts-recv_ts` overflows. -/
def ExchangeFits (orgTs recTs xmtTs recvTs : Timespec) : Prop :=
  SubFits recTs orgTs ∧ AddFits (recTs - orgTs) xmtTs ∧ SubFits (recTs - orgTs + xmtTs) recvTs

instance (ts : Timespec) : Decidable ts.Fits := inferInstanceAs (Decidable (_ ∧ _))

instance (lhs rhs : Timespec) : Decidable (AddFits lhs rhs) := inferInstanceAs (Decidable (_ ∧ _))

instance (lhs : Timespec) (rhs : ℤ) : Decidable (AddNsecFits lhs rhs) :=
  inferInstanceAs (Decidable (_ ∧ _ ∧ _))

instance (lhs rhs : Timespec) : Decidable (SubFits lhs rhs) := inferInstanceAs (Decidable (_ ∧ _))

instance (orgTs recTs xmtTs recvTs : Timespec) :
    Decidable (ExchangeFits orgTs recTs xmtTs recvTs) :=
  inferInstanceAs (Decidable (_ ∧ _ ∧ _))

def wrap (ts : Timespec) : Timespec := ⟨wrap64 ts.tvSec, wrap64 ts.tvNsec⟩

/-- The operators in 64 bits. `standardize` moves `tv_sec` in one direction only, so its wrapped
    result is that of a loop that wraps. -/
def add64 (lhs rhs : Timespec) : Timespec :=
  (wrap ⟨lhs.tvSec + rhs.tvSec, lhs.tvNsec + rhs.tvNsec⟩).standardize.wrap

def addNsec64 (lhs : Timespec) (rhs : ℤ) : Timespec :=
  (wrap ⟨lhs.tvSec, lhs.tvNsec + rhs⟩).standardize.wrap

def sub64 (lhs rhs : Timespec) : Timespec :=
  (wrap ⟨lhs.tvSec - rhs.tvSec, lhs.tvNsec - rhs.tvNsec⟩).standardize.wrap

/-- `(rec_ts-org_ts+xmt_ts-recv_ts)/2`. Halving makes no number larger. -/
def exchange64 (orgTs recTs xmtTs recvTs : Timespec) : Timespec :=
  sub64 (add64 (sub64 recTs orgTs) xmtTs) recvTs / (2 : ℚ)

theorem wrap_of_fits {ts : Timespec} (h : ts.Fits) : ts.wrap = ts := by
  rw [wrap, wrap64_of_fits h.1, wrap64_of_fits h.2]

theorem add64_of_fits {lhs rhs : Timespec} (h : AddFits lhs rhs) : add64 lhs rhs = lhs + rhs := by
  rw [add64, wrap_of_fits h.1]
  exact wrap_of_fits h.2

theorem addNsec64_of_fits {lhs : Timespec} {rhs : ℤ} (h : AddNsecFits lhs rhs) :
    addNsec64 lhs rhs = lhs + rhs := by
  rw [addNsec64, wrap_of_fits h.2.1]
  exact wrap_of_fits h.2.2

theorem sub64_of_fits {lhs rhs : Timespec} (h : SubFits lhs rhs) : sub64 lhs rhs = lhs - rhs := by
  rw [sub64, wrap_of_fits h.1]
  exact wrap_of_fits h.2

theorem exchange64_of_fits {orgTs recTs xmtTs recvTs : Timespec}
    (h : ExchangeFits orgTs recTs xmtTs recvTs) :
    exchange64 orgTs recTs xmtTs recvTs = (recTs - orgTs + xmtTs - recvTs) / (2 : ℚ) := by
  obtain ⟨hthere, hback, hall⟩ := h
  rw [exchange64, sub64_of_fits hthere, add64_of_fits hback, sub64_of_fits hall]

end Timespec

namespace ENode

/-- Case 'U' computes the offset without overflow. -/
def UntaintFits (s : ENode) (msg : UntaintMsg) : Prop :=
  s.tsRef.AddNsecFits (truncate ((s.tsc - s.tscRef : ℤ) / s.tscFreq)) ∧
    Timespec.ExchangeFits msg.orgTs msg.recTs msg.xmtTs s.untaintRecvTs

/-- Case 'D' does. -/
def DriftFits (s : ENode) (msg : DriftMsg) : Prop :=
  s.tsRef.AddNsecFits s.elapsedNsec ∧
    Timespec.ExchangeFits msg.orgTs msg.recTs msg.xmtTs s.readClock.2

instance (s : ENode) (msg : UntaintMsg) : Decidable (s.UntaintFits msg) :=
  inferInstanceAs (Decidable (_ ∧ _))

instance (s : ENode) (msg : DriftMsg) : Decidable (s.DriftFits msg) :=
  inferInstanceAs (Decidable (_ ∧ _))

/-- The offset of the model is then the one that 64 bits give. -/
theorem peerClockOffset_eq_64 {s : ENode} {msg : UntaintMsg} (h : s.UntaintFits msg) :
    s.peerClockOffset msg = Timespec.exchange64 msg.orgTs msg.recTs msg.xmtTs
      (s.tsRef.addNsec64 (truncate ((s.tsc - s.tscRef : ℤ) / s.tscFreq))) := by
  rw [Timespec.addNsec64_of_fits h.1]
  exact (Timespec.exchange64_of_fits h.2).symm

theorem driftOffset_eq_64 {s : ENode} {msg : DriftMsg} (h : s.DriftFits msg) :
    driftOffset msg s.readClock.2 = Timespec.exchange64 msg.orgTs msg.recTs msg.xmtTs
      (s.tsRef.addNsec64 s.elapsedNsec) := by
  rw [Timespec.addNsec64_of_fits h.1]
  exact (Timespec.exchange64_of_fits h.2).symm

end ENode

-- ---------------------------------------------------------------------------
-- The true offset
-- ---------------------------------------------------------------------------

/-- An exchange with a remote clock that is `theta` nanoseconds ahead. The request takes `d1`
    nanoseconds, the remote side `p`, and the answer `d2`. -/
structure Exchange where
  orgTs : Timespec
  theta : ℤ
  d1 : ℤ
  p : ℤ
  d2 : ℤ
  d1_nonneg : 0 ≤ d1
  p_nonneg : 0 ≤ p
  d2_nonneg : 0 ≤ d2

namespace Exchange

def recTs (e : Exchange) : Timespec := e.orgTs + (e.d1 + e.theta)
def xmtTs (e : Exchange) : Timespec := e.recTs + e.p
def recvTs (e : Exchange) : Timespec := e.orgTs + (e.d1 + e.p + e.d2)

/-- What is halved. -/
def sum (e : Exchange) : Timespec := e.recTs - e.orgTs + e.xmtTs - e.recvTs

/-- The processing time cancels out. -/
theorem ns_sum (e : Exchange) : e.sum.ns = 2 * e.theta + (e.d1 - e.d2) := by
  rw [sum, Timespec.ns_exchange, xmtTs, recvTs, recTs]
  simp only [Timespec.ns_addNsec]
  ring

theorem normal_sum (e : Exchange) : e.sum.Normal := Timespec.normal_sub _ _

theorem ns_half_sum (e : Exchange) : (e.sum / (2 : ℚ)).ns = e.theta + (e.d1 - e.d2) / 2 := by
  rw [Timespec.ns_half e.normal_sum, ns_sum]
  omega

end Exchange

theorem floor_half (n : ℤ) : ⌊(n : ℚ) / 2⌋ = n / 2 := by
  exact_mod_cast Rat.floor_intCast_div_natCast n 2

theorem ceil_half (n : ℤ) : ⌈(n : ℚ) / 2⌉ = -(-n / 2) := by
  exact_mod_cast Rat.ceil_intCast_div_natCast n 2

/-- In every exchange, the expression of both handlers is the true offset plus half the difference
    of the delays, rounded down, in normal form and whatever the rounding mode. It is off by at most
    half of one of the delays. -/
theorem offset_exact {round : ℚ → ℚ} (hround : IsExact round) (e : Exchange)
    (hsec : |e.sum.tvSec| < 2 ^ 53) :
    (∀ count sleepTime, ENode.driftOffset ⟨count, sleepTime, e.orgTs, e.recTs, e.xmtTs⟩ e.recvTs =
      Timespec.divRounded round e.sum 2) ∧
    (∀ (s : ENode) count views, s.untaintRecvTs = e.recvTs →
      s.peerClockOffset ⟨count, views, e.orgTs, e.recTs, e.xmtTs⟩ =
        Timespec.divRounded round e.sum 2) ∧
    (Timespec.divRounded round e.sum 2).Normal ∧
    (Timespec.divRounded round e.sum 2).ns = e.theta + ⌊((e.d1 - e.d2 : ℤ) : ℚ) / 2⌋ ∧
    e.theta - ⌈(e.d2 : ℚ) / 2⌉ ≤ (Timespec.divRounded round e.sum 2).ns ∧
    (Timespec.divRounded round e.sum 2).ns ≤ e.theta + ⌊(e.d1 : ℚ) / 2⌋ := by
  have hd1 := e.d1_nonneg
  have hd2 := e.d2_nonneg
  rw [Timespec.divRounded_half hround e.normal_sum hsec, e.ns_half_sum, floor_half, floor_half,
    ceil_half]
  refine ⟨fun _ _ => rfl, ?_, Timespec.normal_div _ _, rfl, ?_, ?_⟩
  · intro s count views hrecv
    rw [ENode.peerClockOffset, hrecv]
    rfl
  · omega
  · omega

/-- The theorem at an offset that is negative and odd. -/
theorem offset_exact_behind :
    let e : Exchange := ⟨⟨1000, 999999999⟩, -1500000001, 3, 7, 8, by decide, by decide, by decide⟩
    (Timespec.divRounded id e.sum 2).ns = -1500000004 := by
  intro e
  have hsum : e.sum = ⟨-4, 999999993⟩ := by decide
  obtain ⟨_, _, _, hns, _⟩ := offset_exact isExact_id e (by rw [hsum]; norm_num)
  rw [hns, floor_half]
  rfl

end TriHaRd
