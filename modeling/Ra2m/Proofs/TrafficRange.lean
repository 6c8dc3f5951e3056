/-
Where random traffic goes.

A length is drawn from the shortest one up to the room in the chunk, and the room itself
is left out.  At an address with room for the shortest length only there is nothing to
draw from.  Below such an address a range that goes on reaches it; so a range that draws
at all must end in front of the last byte of its chunk.  The end of the range does
not enter the bound: an access that starts at the last address stays inside only when its
length is one.

Both together leave two kinds of parameters that never go wrong: those that draw no
access, and those whose accesses start at one byte, in front of a chunk's end, and are a
byte long or have the room of a byte behind the range.
-/
import Mathlib.Order.CompletePartialOrder
import Mathlib.Order.Interval.Set.Disjoint
import Ra2m.Cpn.TrafficGen

namespace Ra2m

/-- What `random_range` is documented to do: a number of the range, and a panic if there is
none. -/
structure Rng.Draws {S : Type} (rng : Rng S) : Prop where
  empty : ∀ s lo hi, hi ≤ lo → ∃ e, rng.randomRange s lo hi = .error e
  drawn : ∀ s lo hi, lo < hi →
    ∃ k t, lo ≤ k ∧ k < hi ∧ rng.randomRange s lo hi = .ok (k, t)

/-- The bytes an access touches. -/
def MemBus.bytes (req : MemBus) : Set Nat :=
  {b | ∃ a len, req.addr = .phys a ∧ req.pattern = .simple len ∧ b ∈ Set.Ico a (a + len)}

namespace TrafficGenParams

variable {S : Type} {params params' : TrafficGenParams} {rng : Rng S} {fromUid : Nat} {now : Tick}
  {s t : S} {a b : Nat}

/-- A non-empty range and chunk, lengths in order, and a command to choose. -/
structure WellFormed (params : TrafficGenParams) : Prop where
  range : 0 < params.addrRange.2
  chunk : 0 < params.addrChunk
  shortest : 1 ≤ params.lenLow
  lengths : params.lenLow < params.lenHigh
  weights : 0 < params.readWriteWeight.1 + params.readWriteWeight.2

/-- The addresses of the range. -/
def range (params : TrafficGenParams) : Set Nat := Set.Ico params.addrRange.1 params.addrHigh

/-- The access lies in the range and in one chunk. -/
def Inside (params : TrafficGenParams) (req : MemBus) : Prop :=
  ∃ a len, req.addr = .phys a ∧ req.pattern = .simple len ∧ params.addrRange.1 ≤ a ∧
    a + len ≤ params.addrHigh ∧ a % params.addrChunk + len ≤ params.addrChunk

/-- No generator makes the loop panic or issue an access that is not inside. -/
def Safe (params : TrafficGenParams) : Prop :=
  ∀ {S : Type} (rng : Rng S), rng.Draws → ∀ fromUid now n s,
    ∃ reqs t, params.genTraffic fromUid rng now n s = .ok (reqs, t) ∧
      ∀ req ∈ reqs, params.Inside req

/-- No address has room for the shortest access; or accesses may be of one byte, no chunk ends in
the range, and either they are no longer or a chunk ends one byte behind the range. -/
def Contained (params : TrafficGenParams) : Prop :=
  (∀ a ∈ params.range, params.lenMax a < params.lenLow) ∨
    params.lenLow = 1 ∧
      (∀ b ∈ Set.Ioc params.addrRange.1 params.addrHigh, b % params.addrChunk ≠ 0) ∧
      (params.lenHigh = 2 ∨ (params.addrHigh + 1) % params.addrChunk = 0)

/-! ### The room in a chunk -/

theorem lenMax_add (hC : 0 < params.addrChunk) (a : Nat) :
    1 ≤ params.lenMax a ∧ a % params.addrChunk + params.lenMax a = params.addrChunk := by
  have hmod := Nat.mod_lt a hC
  unfold lenMax
  omega

/-- Closer to the end of the chunk there is that much less room. -/
theorem lenMax_later {j : Nat} (hC : 0 < params.addrChunk) (hj : j < params.lenMax a) :
    params.lenMax (a + j) = params.lenMax a - j := by
  have hroom := lenMax_add hC a
  have hsmall : a % params.addrChunk + j < params.addrChunk := by omega
  have hmod : (a + j) % params.addrChunk = a % params.addrChunk + j := by
    rw [Nat.add_mod, Nat.mod_eq_of_lt (show j < params.addrChunk by omega),
      Nat.mod_eq_of_lt hsmall]
  unfold lenMax at hj ⊢
  omega

/-- The room ends at the chunk's end, which is the first behind the address. -/
theorem lenMax_end (hC : 0 < params.addrChunk) (a : Nat) :
    (a + params.lenMax a) % params.addrChunk = 0 ∧
      ∀ b, a < b → b % params.addrChunk = 0 → a + params.lenMax a ≤ b := by
  obtain ⟨-, hroom⟩ := lenMax_add hC a
  have hsplit := Nat.div_add_mod a params.addrChunk
  have hend : a + params.lenMax a = params.addrChunk * (a / params.addrChunk + 1) := by
    rw [Nat.mul_succ]
    omega
  refine ⟨by rw [hend, Nat.mul_mod_right], ?_⟩
  intro b hab hb
  obtain ⟨q, rfl⟩ := Nat.dvd_of_mod_eq_zero hb
  rw [hend]
  refine Nat.mul_le_mul_left _ ?_
  rw [Nat.succ_le_iff, Nat.div_lt_iff_lt_mul hC, Nat.mul_comm]
  exact hab

/-- At no address is the range of lengths empty, and the longest access ends in the range. -/
def Stays (params : TrafficGenParams) : Prop :=
  ∀ a ∈ params.range, params.lenLow ≤ params.lenMax a →
    params.lenLow ≠ params.lenMax a ∧
      a + min params.lenHigh (params.lenMax a) ≤ params.addrHigh + 1

theorem stays_iff (h : params.WellFormed) : params.Stays ↔ params.Contained := by
  have hC := h.chunk
  have hshortest := h.shortest
  have hlengths := h.lengths
  constructor
  · intro hstays
    by_cases hnone : ∀ a ∈ params.range, params.lenMax a < params.lenLow
    · exact Or.inl hnone
    right
    obtain ⟨a, ⟨hlow, hhigh⟩, hroom⟩ : ∃ a ∈ params.range,
        params.lenLow ≤ params.lenMax a := by
      by_contra hcon
      exact hnone fun a ha => Nat.lt_of_not_le fun hle => hcon ⟨a, ha, hle⟩
    -- The address with room for the shortest access only is not in the range any more.
    have hout : params.addrHigh ≤ a + (params.lenMax a - params.lenLow) := by
      by_contra hin
      have hlater := lenMax_later (a := a) (j := params.lenMax a - params.lenLow) hC
        (by omega)
      have hmem : a + (params.lenMax a - params.lenLow) ∈ params.range :=
        ⟨Nat.le_add_right_of_le hlow, Nat.lt_of_not_le hin⟩
      exact (hstays _ hmem (by omega)).1 (by omega)
    -- So the last address of the range has room for more.
    have hlast := lenMax_later (a := a) (j := params.addrHigh - 1 - a) hC (by omega)
    have hat : a + (params.addrHigh - 1 - a) = params.addrHigh - 1 := by omega
    rw [hat] at hlast
    have hmem : params.addrHigh - 1 ∈ params.range := ⟨by omega, by omega⟩
    have hend := (hstays _ hmem (by omega)).2
    refine ⟨by omega, ?_, ?_⟩
    · rintro b ⟨hb, hb'⟩ hzero
      have hfirst := (lenMax_end hC (b - 1)).2 b (by omega) hzero
      have hroom' := lenMax_add hC (b - 1)
      exact (hstays (b - 1) ⟨by omega, by omega⟩ (by omega)).1 (by omega)
    · by_cases htwo : params.lenHigh = 2
      · exact Or.inl htwo
      · right
        have hchunk := (lenMax_end hC (params.addrHigh - 1)).1
        have hroom' : params.addrHigh - 1 + params.lenMax (params.addrHigh - 1) =
            params.addrHigh + 1 := by omega
        rwa [hroom'] at hchunk
  · rintro (hnone | ⟨hone, hends, hlong⟩) a ha hroom
    · exact absurd (hnone a ha) (Nat.not_lt_of_le hroom)
    · obtain ⟨hlow, hhigh⟩ := ha
      obtain ⟨hchunk, hfirst⟩ := lenMax_end hC a
      have hpos := (lenMax_add hC a).1
      have hbehind : params.addrHigh < a + params.lenMax a := by
        by_contra hin
        exact hends _ ⟨by omega, Nat.le_of_not_lt hin⟩ hchunk
      constructor
      · intro heq
        omega
      · rcases hlong with htwo | hzero
        · omega
        · have hle := hfirst (params.addrHigh + 1) (by omega) hzero
          omega

/-! ### One turn -/

/-- Without room for the shortest access the turn has no request. -/
theorem draw_none (hC : 0 < params.addrChunk)
    (haddr : rng.randomRange s params.addrRange.1 params.addrHigh = .ok (a, t))
    (hroom : params.lenMax a < params.lenLow) :
    params.draw fromUid rng now s = .ok (none, t) := by
  unfold draw
  simp only [haddr, bind, Except.bind, if_neg (Nat.ne_of_gt hC), if_pos hroom]
  rfl

/-- The turn panics when the length can not be drawn. -/
theorem draw_error {e : Panic} (hC : 0 < params.addrChunk)
    (haddr : rng.randomRange s params.addrRange.1 params.addrHigh = .ok (a, t))
    (hroom : params.lenLow ≤ params.lenMax a)
    (hlen : rng.randomRange t params.lenLow (min params.lenHigh (params.lenMax a)) = .error e) :
    params.draw fromUid rng now s = .error e := by
  unfold draw
  simp only [haddr, bind, Except.bind, if_neg (Nat.ne_of_gt hC), if_neg (Nat.not_lt_of_le hroom),
    pure, Except.pure, hlen]

/-- Otherwise it has a request with the address and the length. -/
theorem draw_some {u : S} {len : Nat} (h : params.WellFormed) (hrng : rng.Draws)
    (haddr : rng.randomRange s params.addrRange.1 params.addrHigh = .ok (a, t))
    (hroom : params.lenLow ≤ params.lenMax a)
    (hlen : rng.randomRange t params.lenLow (min params.lenHigh (params.lenMax a)) =
      .ok (len, u)) :
    ∃ req v, params.draw fromUid rng now s = .ok (some req, v) ∧ req.addr = .phys a ∧
      req.pattern = .simple len := by
  obtain ⟨cmdRand, v, -, -, hcmd⟩ := hrng.drawn u 0 _ h.weights
  unfold draw
  simp only [haddr, bind, Except.bind, if_neg (Nat.ne_of_gt h.chunk),
    if_neg (Nat.not_lt_of_le hroom), pure, Except.pure, hlen, hcmd]
  split
  · exact ⟨_, _, rfl, rfl, rfl⟩
  · exact ⟨_, _, rfl, rfl, rfl⟩

/-- A turn of parameters that stay has no request or one that is inside. -/
theorem draw_inside (h : params.WellFormed) (hstays : params.Stays) (hrng : rng.Draws)
    (fromUid : Nat) (now : Tick) (s : S) :
    ∃ req t, params.draw fromUid rng now s = .ok (req, t) ∧ ∀ r ∈ req, params.Inside r := by
  have hrange := h.range
  have hlow : params.addrRange.1 < params.addrHigh := Nat.lt_add_of_pos_right hrange
  obtain ⟨a, t, ha, ha', haddr⟩ := hrng.drawn s _ _ hlow
  rcases Nat.lt_or_ge (params.lenMax a) params.lenLow with hroom | hroom
  · exact ⟨none, t, draw_none h.chunk haddr hroom, fun r hr => by cases hr⟩
  · obtain ⟨hne, hend⟩ := hstays a ⟨ha, ha'⟩ hroom
    have hlengths := h.lengths
    obtain ⟨len, u, hlen, hlen', hdrawn⟩ :=
      hrng.drawn t params.lenLow (min params.lenHigh (params.lenMax a)) (by omega)
    obtain ⟨req, v, hdraw, hphys, hsimple⟩ := draw_some h hrng haddr hroom hdrawn
    refine ⟨some req, v, hdraw, ?_⟩
    rintro r hr
    obtain rfl := Option.some.inj hr
    have hchunk := (lenMax_add h.chunk a).2
    exact ⟨a, len, hphys, hsimple, ha, by omega, by omega⟩

/-- And so do all turns. -/
theorem genTraffic_inside (h : params.WellFormed) (hstays : params.Stays) (hrng : rng.Draws)
    (fromUid : Nat) (now : Nat → Tick) (n : Nat) (s : S) :
    ∃ reqs t, params.genTraffic fromUid rng now n s = .ok (reqs, t) ∧
      ∀ req ∈ reqs, params.Inside req := by
  induction n with
  | zero => exact ⟨[], s, rfl, fun req hreq => by cases hreq⟩
  | succ n ih =>
      obtain ⟨reqs, t, hreqs, hinside⟩ := ih
      obtain ⟨req, u, hdraw, hreq⟩ := draw_inside h hstays hrng fromUid (now n) t
      refine ⟨reqs ++ req.toList, u, ?_, ?_⟩
      · unfold genTraffic
        simp only [hreqs, hdraw, bind, Except.bind]
        rfl
      · intro r hr
        rcases List.mem_append.mp hr with hr | hr
        · exact hinside r hr
        · exact hreq r (Option.mem_toList.mp hr)

/-! ### A generator that draws what it is told -/

/-- The next number of the list, where the range has it. -/
def scripted : Rng (List Nat) where
  randomRange s lo hi :=
    if hi ≤ lo then .error ⟨"cannot sample empty range"⟩
    else if lo ≤ s.headD lo ∧ s.headD lo < hi then .ok (s.headD lo, s.tail)
    else .ok (lo, s.tail)
  random s := (0, s)

theorem scripted_draws : scripted.Draws where
  empty s lo hi h := ⟨_, if_pos h⟩
  drawn s lo hi h := by
    unfold scripted
    dsimp only
    rw [if_neg (Nat.not_le_of_lt h)]
    split
    · rename_i hin
      exact ⟨_, _, hin.1, hin.2, rfl⟩
    · exact ⟨lo, _, Nat.le_refl lo, h, rfl⟩

theorem scripted_cons {k lo hi : Nat} {rest : List Nat} (hlo : lo ≤ k) (hhi : k < hi) :
    scripted.randomRange (k :: rest) lo hi = .ok (k, rest) := by
  unfold scripted
  dsimp only
  rw [List.headD_cons, if_neg (by omega), if_pos ⟨hlo, hhi⟩, List.tail_cons]

theorem stays_of_safe (h : params.WellFormed) (hsafe : params.Safe) : params.Stays := by
  rintro a ⟨hlow, hhigh⟩ hroom
  have hrun : ∀ len, ∃ reqs t, params.genTraffic 0 scripted (fun _ => 0) 1 [a, len] =
      .ok (reqs, t) ∧ ∀ req ∈ reqs, params.Inside req :=
    fun len => hsafe scripted scripted_draws 0 (fun _ => 0) 1 [a, len]
  have haddr : ∀ len, scripted.randomRange [a, len] params.addrRange.1 params.addrHigh =
      .ok (a, [len]) := fun len => scripted_cons hlow hhigh
  have hlengths := h.lengths
  have hne : params.lenLow ≠ params.lenMax a := by
    intro heq
    obtain ⟨reqs, t, hok, -⟩ := hrun 0
    obtain ⟨e, he⟩ := scripted_draws.empty [0] params.lenLow
      (min params.lenHigh (params.lenMax a)) (by omega)
    unfold genTraffic genTraffic at hok
    simp only [bind, Except.bind, draw_error h.chunk (haddr 0) hroom he] at hok
    cases hok
  refine ⟨hne, ?_⟩
  -- The longest access is drawn.
  obtain ⟨reqs, t, hok, hinside⟩ := hrun (min params.lenHigh (params.lenMax a) - 1)
  have hlen : scripted.randomRange [min params.lenHigh (params.lenMax a) - 1] params.lenLow
      (min params.lenHigh (params.lenMax a)) =
      .ok (min params.lenHigh (params.lenMax a) - 1, []) :=
    scripted_cons (by omega) (by omega)
  obtain ⟨req, v, hdraw, hphys, hsimple⟩ :
      ∃ req v, params.draw 0 scripted 0 [a, min params.lenHigh (params.lenMax a) - 1] =
        .ok (some req, v) ∧ req.addr = .phys a ∧
        req.pattern = .simple (min params.lenHigh (params.lenMax a) - 1) :=
    draw_some h scripted_draws (haddr _) hroom hlen
  unfold genTraffic genTraffic at hok
  simp only [bind, Except.bind, hdraw, pure, Except.pure] at hok
  obtain rfl := (Prod.mk.inj (Except.ok.inj hok)).1
  obtain ⟨b, len, hphys', hsimple', -, hend, -⟩ := hinside req (List.mem_singleton_self req)
  obtain rfl := Addr.phys.inj (hphys.symm.trans hphys')
  obtain rfl := Pattern.simple.inj (hsimple.symm.trans hsimple')
  omega

/-! ### Which parameters are safe -/

theorem inside_bytes {req : MemBus} (hreq : params.Inside req) : req.bytes ⊆ params.range := by
  rintro b ⟨a, len, hphys, hsimple, hb, hb'⟩
  obtain ⟨a', len', hphys', hsimple', hlow, hhigh, -⟩ := hreq
  obtain rfl := Addr.phys.inj (hphys.symm.trans hphys')
  obtain rfl := Pattern.simple.inj (hsimple.symm.trans hsimple')
  exact ⟨hlow.trans hb, hb'.trans_le hhigh⟩

/-- **Random traffic is safe when it is contained.**  Whatever is drawn, the loop does not panic
and every access lies in the range and in one chunk, exactly for the two kinds of contained
parameters; and then generators with disjoint ranges touch no byte in common. -/
theorem safe_iff (params : TrafficGenParams) (h : params.WellFormed) :
    (params.Safe ↔ params.Contained) ∧
      ∀ params' : TrafficGenParams, params'.WellFormed → params.Contained → params'.Contained →
        Disjoint params.range params'.range →
        ∀ {S S' : Type} (rng : Rng S) (rng' : Rng S'), rng.Draws → rng'.Draws →
        ∀ fromUid fromUid' now now' n n' s s' reqs reqs' t t',
          params.genTraffic fromUid rng now n s = .ok (reqs, t) →
          params'.genTraffic fromUid' rng' now' n' s' = .ok (reqs', t') →
          ∀ req ∈ reqs, ∀ req' ∈ reqs', Disjoint req.bytes req'.bytes := by
  constructor
  · constructor
    · intro hsafe
      exact (stays_iff h).mp (stays_of_safe h hsafe)
    · intro hcontained S rng hrng fromUid now n s
      exact genTraffic_inside h ((stays_iff h).mpr hcontained) hrng fromUid now n s
  · intro params' h' hcont hcont' hdisj S S' rng rng' hrng hrng' fromUid fromUid' now now' n n' s s'
      reqs reqs' t t' hok hok' req hreq req' hreq'
    obtain ⟨_, _, hrun, hinside⟩ :=
      genTraffic_inside h ((stays_iff h).mpr hcont) hrng fromUid now n s
    obtain ⟨_, _, hrun', hinside'⟩ :=
      genTraffic_inside h' ((stays_iff h').mpr hcont') hrng' fromUid' now' n' s'
    obtain rfl := (Prod.mk.inj (Except.ok.inj (hok.symm.trans hrun))).1
    obtain rfl := (Prod.mk.inj (Except.ok.inj (hok'.symm.trans hrun'))).1
    exact (hdisj.mono_left (inside_bytes (hinside req hreq))).mono_right
      (inside_bytes (hinside' req' hreq'))

/-- Two ranges of a memory of sixteen bytes, with accesses of one to seven bytes.  In the whole
memory the last byte is an address with nothing to draw a length from; in its lower half an
access at the last byte reaches into the upper one. -/
theorem traffic_escapes :
    (genTraffic ⟨(0, 16), 16, (1, 8), (50, 50)⟩ 0 scripted (fun _ => 0) 1 [15]) =
        .error ⟨"cannot sample empty range"⟩ ∧
      (∃ req t, genTraffic ⟨(0, 8), 16, (1, 8), (50, 50)⟩ 0 scripted (fun _ => 0) 1 [7, 7] =
        .ok ([req], t) ∧ req.addr = .phys 7 ∧ req.pattern = .simple 7) ∧
      WellFormed ⟨(0, 16), 16, (1, 8), (50, 50)⟩ ∧ ¬ Safe ⟨(0, 16), 16, (1, 8), (50, 50)⟩ ∧
      WellFormed ⟨(0, 8), 16, (1, 8), (50, 50)⟩ ∧ ¬ Safe ⟨(0, 8), 16, (1, 8), (50, 50)⟩ := by
  have hpanic : genTraffic ⟨(0, 16), 16, (1, 8), (50, 50)⟩ 0 scripted (fun _ => 0) 1 [15] =
      .error ⟨"cannot sample empty range"⟩ := rfl
  refine ⟨hpanic, ⟨_, _, rfl, rfl, rfl⟩, ⟨by decide, by decide, by decide, by decide, by decide⟩,
    ?_, ⟨by decide, by decide, by decide, by decide, by decide⟩, ?_⟩
  · intro hsafe
    obtain ⟨reqs, t, hok, -⟩ := hsafe scripted scripted_draws 0 (fun _ => 0) 1 [15]
    cases hpanic.symm.trans hok
  · intro hsafe
    obtain ⟨reqs, t, hok, hinside⟩ := hsafe scripted scripted_draws 0 (fun _ => 0) 1 [7, 7]
    obtain rfl := (Prod.mk.inj (Except.ok.inj hok)).1
    obtain ⟨a, len, hphys, hsimple, -, hend, -⟩ := hinside _ (List.mem_singleton_self _)
    obtain rfl := Addr.phys.inj hphys
    obtain rfl := Pattern.simple.inj hsimple
    exact absurd hend (by decide)

/-- Accesses of one byte that keep away from the ends of chunks. -/
theorem one_byte_safe : Safe ⟨(0, 14), 16, (1, 2), (50, 50)⟩ := by
  refine ((safe_iff ⟨(0, 14), 16, (1, 2), (50, 50)⟩
    ⟨by decide, by decide, by decide, by decide, by decide⟩).1).mpr (Or.inr ⟨rfl, ?_, Or.inl rfl⟩)
  rintro b ⟨hb, hb'⟩ hzero
  obtain ⟨q, rfl⟩ := Nat.dvd_of_mod_eq_zero hzero
  have hle : 16 * q ≤ 14 := hb'
  have hpos : 0 < 16 * q := hb
  omega

end TrafficGenParams

end Ra2m
