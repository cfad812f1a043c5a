import Obi.Spec.GroupHistory

/-!
# A Fetch is attributed to a group of its process

Every member the store has was asserted by a recorded request, and has not been
removed since; it expires a fixed time after that request. A group that is not
marked foreign has been named by no other protocol since it was created. So the
group `Lookup` returns has a member that is alive, and no other group of
consumers could have sent the Fetch. A group without a name `consumerGroup`
could not tell from none; the parser lets no request through that names one.
-/

namespace Obi.Refine
open Lib Ref Spec KafkaProcessGroups Table List

/-! ## Members of a group -/

section
variable {g : KafkaMembership} {m : KafkaMember} {key k : MemberKey} {now e : Int}

theorem get_put : (g.put m key).get k = if k = key then some m else g.get k := by
  cases key with
  | named id =>
    cases k with
    | named id' =>
      rw [KafkaMembership.put, KafkaMembership.get, get_insert]
      simp [KafkaMembership.get]
    | unnamed conn => rfl
  | unnamed conn =>
    cases k with
    | named id => rfl
    | unnamed conn' =>
      rw [KafkaMembership.put, KafkaMembership.get, get_insert]
      simp [KafkaMembership.get]

theorem foreign_put : (g.put m key).foreign = g.foreign := by
  cases key with
  | named id | unnamed conn => rfl

variable {f : KafkaMember → KafkaMember}

theorem foreign_update : (g.update key f).foreign = g.foreign := by
  rw [KafkaMembership.update]
  split
  · rfl
  · exact foreign_put

theorem get_update : (g.update key f).get k = if k = key then (g.get key).map f else g.get k := by
  rw [KafkaMembership.update]
  cases hm : g.get key with
  | none =>
    by_cases hk : k = key
    · rw [if_pos hk, hk]
      exact hm
    · rw [if_neg hk]
  | some m => exact get_put

theorem get_dropExpired :
    (g.dropExpired now).get k = Option.bind (g.get k) (KafkaMembership.unexpired now) := by
  cases k with
  | named id | unnamed conn => exact lookup_filterMap _ _ _

theorem get_forEachMember : (g.forEachMember f).get k = (g.get k).map f := by
  cases k with
  | named id | unnamed conn => exact (lookup_filterMap _ _ _).trans (Option.map_eq_bind ..).symm

/-- When the member expires, if there is one. -/
def expiresAt (g : KafkaMembership) (key : MemberKey) : Option Int :=
  (g.get key).map KafkaMember.expires

theorem expiresAt_update (hf : ∀ m, (f m).expires = m.expires) :
    expiresAt (g.update key f) k = expiresAt g k := by
  rw [expiresAt, get_update]
  split
  · next hk =>
    rw [hk, Option.map_map]
    exact congrArg (fun f => Option.map f (g.get key)) (funext hf)
  · rfl

theorem expiresAt_dropExpired (h : expiresAt (g.dropExpired now) k = some e) :
    expiresAt g k = some e ∧ now < e := by
  rw [expiresAt, get_dropExpired] at h
  obtain ⟨m, hm, rfl⟩ := Option.map_eq_some_iff.mp h
  obtain ⟨m', hget, hunexp⟩ := Option.bind_eq_some_iff.mp hm
  rw [KafkaMembership.unexpired] at hunexp
  split at hunexp
  · next hnow =>
    cases hunexp
    exact ⟨by rw [expiresAt, hget, Option.map_some], hnow⟩
  · cases hunexp

theorem addTopics_expires (topics : List GroupTopic) (names : TopicNames) (budget : Int) :
    (m.addTopics topics names budget).expires = m.expires := by
  refine foldlRecOn (motive := fun st : KafkaMember × Int => st.1.expires = m.expires)
    topics _ rfl fun st hst topic _ => ?_
  rw [KafkaMember.addTopic]
  split
  · exact hst
  split
  · exact hst
  split
  · exact hst
  · exact hst

/-- A group with members has one that expires. -/
theorem exists_expiresAt (h : g.size ≠ 0) : ∃ key e, expiresAt g key = some e := by
  rw [KafkaMembership.size] at h
  have hent : ∀ {K V : Type} [DecidableEq K] (t : Table K V), t.entries.length ≠ 0 →
      ∃ k v, t.lookup k = some v := by
    intro K V _ t ht
    obtain ⟨e, he⟩ := exists_mem_of_length_pos (Nat.pos_of_ne_zero ht)
    exact ⟨e.1, e.2, AList.mem_lookup_iff.mpr he⟩
  by_cases hmems : g.members.entries.length = 0
  · have hpending : g.pending.entries.length ≠ 0 := fun hzero => h (by rw [hmems, hzero])
    obtain ⟨conn, m, hm⟩ := hent g.pending hpending
    exact ⟨.unnamed conn, m.expires, by rw [expiresAt, KafkaMembership.get, hm, Option.map_some]⟩
  · obtain ⟨id, m, hm⟩ := hent g.members hmems
    exact ⟨.named id, m.expires, by rw [expiresAt, KafkaMembership.get, hm, Option.map_some]⟩

/-- The member of a request is found or made, under its name or under its
connection; no other member is new. -/
theorem member_spec {g' : KafkaMembership} {id : String} {conn : BpfConnectionInfoT}
    (h : g.member id conn = some (g', key)) :
    key = (if id = "" then .unnamed conn else .named id) ∧ g'.foreign = g.foreign ∧
      ∀ k, k ≠ key → ∀ m, g'.get k = some m → g.get k = some m := by
  have hput : ∀ {key : MemberKey}, ∀ k, k ≠ key → ∀ m,
      (g.put newKafkaMember key).get k = some m → g.get k = some m := by
    intro key k hk m hm
    rw [get_put, if_neg hk] at hm
    exact hm
  rw [KafkaMembership.member] at h
  split at h
  · next hid =>
    rw [KafkaMembership.pendingMember] at h
    rw [if_pos hid]
    split at h
    · cases h
      exact ⟨rfl, rfl, fun _ _ _ hm => hm⟩
    split at h
    · cases h
    · cases h
      exact ⟨rfl, foreign_put, hput⟩
  · next hid =>
    rw [if_neg hid]
    split at h
    · cases h
      exact ⟨rfl, rfl, fun _ _ _ hm => hm⟩
    split at h
    · cases h
      refine ⟨rfl, foreign_put, fun k hk m hm => ?_⟩
      rw [get_put, if_neg hk] at hm
      cases k with
      | named id' => exact hm
      | unnamed conn' =>
        rw [KafkaMembership.get, get_erase] at hm
        split at hm
        · cases hm
        · exact hm
    · split at h
      · cases h
      · cases h
        exact ⟨rfl, foreign_put, hput⟩

/-- Only a full group has no place for a member. -/
theorem size_of_member_none {id : String} {conn : BpfConnectionInfoT}
    (h : g.member id conn = none) : g.size ≥ maxMembersPerGroup := by
  rw [KafkaMembership.member, KafkaMembership.pendingMember] at h
  split at h
  · split at h
    · cases h
    split at h
    · next hfull => exact hfull
    · cases h
  split at h
  · cases h
  split at h
  · cases h
  split at h
  · next hfull => exact hfull
  · cases h

end

/-! ## The state of a process -/

section
variable {times : KafkaTimes} {proc : KafkaProcess} {p p' : KafkaProcessGroups}
  {events : List GroupEvent} {e : GroupEvent}

/-- What is in the state of a process is there because of its history. -/
structure ProcessBacked (times : KafkaTimes) (proc : KafkaProcess) (p : KafkaProcessGroups)
    (events : List GroupEvent) : Prop where
  since : Since (GroupEvent.CreatesState proc p.since) (GroupEvent.EndsState proc) events
  consumer : ∀ group g, p.groups.lookup group = some g → g.foreign = false →
    ConsumerSince events proc group
  members : ∀ group g, p.groups.lookup group = some g → ∀ key t, expiresAt g key = some t →
    ∃ time, t = time + times.ttl ∧
      Since (GroupEvent.Asserts proc group key time) (GroupEvent.Removes proc group key) events

/-- Nothing in `p'` that is not in `p`. -/
structure Within (p' p : KafkaProcessGroups) : Prop where
  since : p'.since = p.since
  groups : ∀ group g', p'.groups.lookup group = some g' →
    ∃ g, p.groups.lookup group = some g ∧ (g'.foreign = false → g.foreign = false) ∧
      ∀ key t, expiresAt g' key = some t → expiresAt g key = some t

theorem Within.refl (p : KafkaProcessGroups) : Within p p :=
  ⟨rfl, fun _ g hg => ⟨g, hg, id, fun _ _ ht => ht⟩⟩

theorem ProcessBacked.within (h : ProcessBacked times proc p events) (hw : Within p' p) :
    ProcessBacked times proc p' events where
  since := by
    rw [hw.since]
    exact h.since
  consumer group g' hg' hfor := by
    obtain ⟨g, hg, hsame, -⟩ := hw.groups group g' hg'
    exact h.consumer group g hg (hsame hfor)
  members group g' hg' key t ht := by
    obtain ⟨g, hg, -, hmems⟩ := hw.groups group g' hg'
    exact h.members group g hg key t (hmems key t ht)

/-- The history goes on with an event that undoes nothing of the state. -/
theorem ProcessBacked.extend (h : ProcessBacked times proc p events) (hends : ¬ e.EndsState proc)
    (hmake : ∀ group g, p.groups.lookup group = some g → g.foreign = false →
      ¬ e.CreatesGroup proc group ∧ ¬ e.NamesForeign proc group)
    (hrms : ∀ group g, p.groups.lookup group = some g → ∀ key t,
      expiresAt g key = some t → ¬ e.Removes proc group key) :
    ProcessBacked times proc p (events ++ [e]) where
  since := since_concat.mpr (.inr ⟨h.since, hends⟩)
  consumer group g hg hfor := by
    refine since_concat.mpr (.inr ⟨h.consumer group g hg hfor, ?_⟩)
    rintro (hmake' | hnames)
    · exact (hmake group g hg hfor).1 hmake'
    · exact (hmake group g hg hfor).2 hnames
  members group g hg key t ht := by
    obtain ⟨time, htime, hass⟩ := h.members group g hg key t ht
    exact ⟨time, htime, since_concat.mpr (.inr ⟨hass, hrms group g hg key t ht⟩)⟩

theorem within_dropExpired (p : KafkaProcessGroups) (now : Int) : Within (p.dropExpired now) p := by
  refine ⟨rfl, fun group g' hg' => ?_⟩
  rw [dropExpired, lookup_filterMap] at hg'
  obtain ⟨g, hg, hsome⟩ := Option.bind_eq_some_iff.mp hg'
  split at hsome
  · cases hsome
  · cases hsome
    exact ⟨g, hg, id, fun key t ht => (expiresAt_dropExpired ht).1⟩

/-- After the expired members are dropped, each group has one that is alive. -/
theorem alive_of_dropExpired {now : Int} {group : String} {g : KafkaMembership}
    (hg : (p.dropExpired now).groups.lookup group = some g) :
    ∃ key t, expiresAt g key = some t ∧ now < t := by
  rw [dropExpired, lookup_filterMap] at hg
  obtain ⟨g', -, hsome⟩ := Option.bind_eq_some_iff.mp hg
  split at hsome
  · cases hsome
  · next hsize =>
    cases hsome
    obtain ⟨key, t, ht⟩ := exists_expiresAt hsize
    exact ⟨key, t, ht, (expiresAt_dropExpired ht).2⟩

theorem within_put {group : String} {g g' : KafkaMembership}
    (hg : p.groups.lookup group = some g) (hfor : g'.foreign = g.foreign)
    (hmems : ∀ key t, expiresAt g' key = some t → expiresAt g key = some t) :
    Within (p.put group g') p := by
  refine ⟨rfl, fun other g'' hg'' => ?_⟩
  rw [put, get_insert] at hg''
  split at hg''
  · next hoth =>
    cases hg''
    rw [hoth]
    exact ⟨g, hg, fun h => hfor ▸ h, hmems⟩
  · exact ⟨g'', hg'', id, fun _ _ ht => ht⟩

theorem within_enrich (p : KafkaProcessGroups) (req : GroupRequest) (names : TopicNames) :
    Within (p.enrich req names) p := by
  rw [enrich]
  split
  · exact .refl p
  · next g hg =>
    split
    · exact .refl p
    split
    · exact .refl p
    refine within_put hg foreign_update fun key t ht => ?_
    rw [expiresAt_update fun m => addTopics_expires _ _ _] at ht
    exact ht

/-- The group after a `Leave`. -/
def leaveGroup (g : KafkaMembership) (conn : BpfConnectionInfoT) (members : List String) :
    KafkaMembership :=
  { g with
    members := members.foldl (fun t id => t.erase id) g.members
    pending := g.pending.erase (sortConnectionInfo conn) }

theorem get_leaveGroup {g : KafkaMembership} {conn : BpfConnectionInfoT} {members : List String}
    {key : MemberKey} {m : KafkaMember} (h : (leaveGroup g conn members).get key = some m) :
    g.get key = some m ∧ ¬ (GroupEvent.left proc conn group members).Removes proc group key := by
  cases key with
  | named id =>
    have hlookup := lookup_foldl (g := fun _ => none)
      (fun t k j => get_erase t k j) (fun _ => rfl) members g.members id
    rw [KafkaMembership.get, leaveGroup] at h
    rw [hlookup] at h
    split at h
    · cases h
    · next hid => exact ⟨h, fun hrms => hid hrms.2.2⟩
  | unnamed conn' =>
    rw [KafkaMembership.get, leaveGroup, get_erase] at h
    split at h
    · cases h
    · next hconn => exact ⟨h, fun hrms => hconn hrms.2.2.symm⟩

/-- A `Leave` removes what the history says it does, and adds nothing. -/
theorem leave_spec (proc : KafkaProcess) (p : KafkaProcessGroups) (conn : BpfConnectionInfoT)
    (group : String) (members : List String) :
    Within (p.leave conn group members) p ∧
      ∀ other g, (p.leave conn group members).groups.lookup other = some g →
        ∀ key t, expiresAt g key = some t →
          ¬ (GroupEvent.left proc conn group members).Removes proc other key := by
  have hoth : ∀ other key, other ≠ group →
      ¬ (GroupEvent.left proc conn group members).Removes proc other key :=
    fun other key hne hrms => hne hrms.2.1.symm
  rw [leave]
  split
  · next hnone =>
    refine ⟨.refl p, fun other g hg key t _ => hoth other key ?_⟩
    rintro rfl
    rw [hnone] at hg
    cases hg
  · next g hg =>
    have hleft : ∀ key t, expiresAt (leaveGroup g conn members) key = some t →
        expiresAt g key = some t ∧
          ¬ (GroupEvent.left proc conn group members).Removes proc group key := by
      intro key t ht
      obtain ⟨m, hm, rfl⟩ := Option.map_eq_some_iff.mp ht
      obtain ⟨hget, hnot⟩ := get_leaveGroup hm
      exact ⟨by rw [expiresAt, hget, Option.map_some], hnot⟩
    change Within (if (leaveGroup g conn members).size > 0 then
        p.put group (leaveGroup g conn members) else { p with groups := p.groups.erase group }) p ∧
      ∀ other g', (if (leaveGroup g conn members).size > 0 then
        p.put group (leaveGroup g conn members)
        else { p with groups := p.groups.erase group }).groups.lookup other = some g' → _
    split
    · refine ⟨within_put hg rfl fun key t ht => (hleft key t ht).1, ?_⟩
      intro other g' hg' key t ht
      rw [put, get_insert] at hg'
      split at hg'
      · next hsame =>
        cases hg'
        rw [hsame]
        exact (hleft key t ht).2
      · next hne => exact hoth other key hne
    · refine ⟨⟨rfl, fun other g' hg' => ?_⟩, fun other g' hg' key t _ => hoth other key ?_⟩
      · rw [get_erase] at hg'
        split at hg'
        · cases hg'
        · exact ⟨g', hg', id, fun _ _ ht => ht⟩
      · rintro rfl
        rw [AList.lookup_erase] at hg'
        cases hg'

/-! ### Join -/

variable {req : GroupRequest} {names : TopicNames} {conn : BpfConnectionInfoT} {ttl now : Int}

theorem foreign_joinMember {g : KafkaMembership} {key : MemberKey} :
    (p.joinMember names req g key).foreign = (g.foreign || req.namesForeign) := by
  rw [joinMember]
  split
  · next hfor => exact hfor.symm
  · next hnot =>
    rw [Bool.not_eq_true] at hnot
    rw [hnot]
    split
    · rw [foreign_update, foreign_update]
      exact (Bool.or_eq_false_iff.mp hnot).1
    · rw [foreign_update]
      exact (Bool.or_eq_false_iff.mp hnot).1

theorem expiresAt_joinMember {g : KafkaMembership} {key k : MemberKey} :
    expiresAt (p.joinMember names req g key) k = expiresAt g k := by
  rw [joinMember]
  split
  · rw [expiresAt, get_forEachMember, Option.map_map]
    rfl
  split
  · rw [expiresAt_update fun m => addTopics_expires _ _ _]
    exact expiresAt_update fun _ => rfl
  · exact expiresAt_update fun m => addTopics_expires _ _ _

/-- What a recorded `Join` leaves: the group of the request, with its member
renewed. -/
theorem join_recorded (h : (p.join ttl conn req names now).2 = true) :
    ∃ g g', p.membership req.groupID = some g ∧
      (p.join ttl conn req names now).1 = p.put req.groupID g' ∧
      g'.foreign = (g.foreign || req.namesForeign) ∧
      ∀ key t, expiresAt g' key = some t →
        (memberKey req.memberID conn = key ∧ t = now + ttl) ∨ expiresAt g key = some t := by
  rw [join] at h ⊢
  cases hmembership : p.membership req.groupID with
  | none =>
    rw [hmembership] at h
    cases h
  | some g =>
    rw [hmembership] at h
    simp only [] at h ⊢
    cases hmember : g.member req.memberID (sortConnectionInfo conn) with
    | none =>
      rw [hmember] at h
      cases h
    | some found =>
      obtain ⟨g1, key⟩ := found
      obtain ⟨hkey, hfor, hoth⟩ := member_spec hmember
      refine ⟨g, (p.put req.groupID g).joinMember names req
        (g1.update key fun m => { m with expires := now + ttl }) key, rfl, ?_, ?_,
        fun k t ht => ?_⟩
      · simp [put]
      · rw [foreign_joinMember, foreign_update, hfor]
      · rw [expiresAt_joinMember, expiresAt, get_update] at ht
        split at ht
        · next hk =>
          rw [Option.map_map] at ht
          obtain ⟨m, -, rfl⟩ := Option.map_eq_some_iff.mp ht
          refine .inl ⟨?_, rfl⟩
          rw [hk, hkey, memberKey]
        · next hk =>
          obtain ⟨m, hm, rfl⟩ := Option.map_eq_some_iff.mp ht
          exact .inr (by rw [expiresAt, hoth k hk m hm, Option.map_some])

/-- A `Join` that gives up leaves the state as it is: a new group has place for
its first member. -/
theorem join_not_recorded (h : (p.join ttl conn req names now).2 = false) :
    Within (p.join ttl conn req names now).1 p := by
  rw [join] at h ⊢
  cases hmembership : p.membership req.groupID with
  | none => exact .refl p
  | some g =>
    rw [hmembership] at h
    simp only [] at h ⊢
    cases hmember : g.member req.memberID (sortConnectionInfo conn) with
    | some found =>
      rw [hmember] at h
      cases h
    | none =>
      have hfull := size_of_member_none hmember
      rw [membership] at hmembership
      split at hmembership
      · next g' hg' =>
        cases hmembership
        exact within_put hg' rfl fun _ _ ht => ht
      split at hmembership
      · cases hmembership
      · cases hmembership
        exact absurd hfull (by decide)

/-- A recorded `Join` is backed by the history it goes into. -/
theorem ProcessBacked.join {time : Int} {since : Option Int} {newGroup : Bool}
    (hsince : Since (GroupEvent.CreatesState proc p.since) (GroupEvent.EndsState proc)
      (events ++ [.joined proc conn req time since newGroup]))
    (hgrps : ∀ group g, p.groups.lookup group = some g →
      (g.foreign = false → ConsumerSince events proc group) ∧
        ∀ key t, expiresAt g key = some t → ∃ time, t = time + times.ttl ∧
          Since (GroupEvent.Asserts proc group key time) (GroupEvent.Removes proc group key) events)
    (hnew : newGroup = (p.groups.lookup req.groupID).isNone)
    (h : (p.join times.ttl conn req names time).2 = true) :
    ProcessBacked times proc (p.join times.ttl conn req names time).1
      (events ++ [.joined proc conn req time since newGroup]) := by
  obtain ⟨g, g', hmembership, hjoin, hfor, hmems⟩ := join_recorded h
  rw [hjoin]
  refine ⟨hsince, fun group r hr hnot => ?_, fun group r hr key t ht => ?_⟩
  · rw [put, get_insert] at hr
    split at hr
    · next hgroup =>
      subst hgroup
      cases hr
      rw [hfor, Bool.or_eq_false_iff] at hnot
      have hcons : ¬ (GroupEvent.joined proc conn req time since newGroup).NamesForeign
          proc req.groupID := by
        rintro ⟨-, -, hsome, hoth⟩
        rw [GroupRequest.namesForeign, decide_eq_true hsome, decide_eq_true hoth] at hnot
        cases hnot.2
      rw [membership] at hmembership
      cases hlookup : p.groups.lookup req.groupID with
      | none =>
        rw [hlookup] at hnew
        exact since_concat.mpr (.inl ⟨⟨rfl, rfl, hnew⟩, hcons⟩)
      | some g0 =>
        rw [hlookup] at hmembership hnew
        cases hmembership
        refine since_concat.mpr (.inr ⟨(hgrps _ _ hlookup).1 hnot.1, ?_⟩)
        rintro (⟨-, -, htrue⟩ | hnames)
        · rw [hnew] at htrue
          cases htrue
        · exact hcons hnames
    · next hgroup =>
      refine since_concat.mpr (.inr ⟨(hgrps group r hr).1 hnot, ?_⟩)
      rintro (⟨-, hsame, -⟩ | ⟨-, hsame, -⟩)
      · exact hgroup hsame.symm
      · exact hgroup hsame.symm
  · rw [put, get_insert] at hr
    have hlast : ∀ {time'},
        Since (GroupEvent.Asserts proc group key time') (GroupEvent.Removes proc group key) events →
        Since (GroupEvent.Asserts proc group key time') (GroupEvent.Removes proc group key)
          (events ++ [.joined proc conn req time since newGroup]) :=
      fun h => since_concat.mpr (.inr ⟨h, id⟩)
    split at hr
    · next hgroup =>
      subst hgroup
      cases hr
      rcases hmems key t ht with ⟨hkey, rfl⟩ | hold
      · exact ⟨time, rfl, since_concat.mpr (.inl ⟨rfl, rfl, hkey, rfl⟩)⟩
      rw [membership] at hmembership
      split at hmembership
      · next g0 hlookup =>
        cases hmembership
        obtain ⟨time', htime, hass⟩ := (hgrps _ _ hlookup).2 key t hold
        exact ⟨time', htime, hlast hass⟩
      split at hmembership
      · cases hmembership
      · cases hmembership
        cases key with
        | named id | unnamed conn => cases hold
    · obtain ⟨time', htime, hass⟩ := (hgrps group r hr).2 key t ht
      exact ⟨time', htime, hlast hass⟩

end

/-! ## Runs -/

structure GroupRun where
  lru : KafkaConsumerGroups
  events : List GroupEvent

def GroupRun.init : GroupRun := ⟨∅, []⟩

def GroupRun.step (times : KafkaTimes) (run : GroupRun) (call : GroupCall) : GroupRun :=
  ⟨run.lru.call times call, run.events ++ groupEvents times run.lru call⟩

section
variable {times : KafkaTimes} {lru : KafkaConsumerGroups} {events : List GroupEvent}
  {proc : KafkaProcess}

def StoreBacked (times : KafkaTimes) (lru : KafkaConsumerGroups) (events : List GroupEvent) :
    Prop :=
  ∀ proc p, AList.lookup proc lru = some p → ProcessBacked times proc p events

/-- An event about another process. -/
theorem ProcessBacked.extend_other {p : KafkaProcessGroups} {e : GroupEvent}
    (h : ProcessBacked times proc p events) (hproc : e.process ≠ proc) :
    ProcessBacked times proc p (events ++ [e]) := by
  cases e with
  | joined q conn req time since newGroup =>
    exact h.extend (fun h => hproc h.1)
      (fun _ _ _ _ => ⟨fun h => hproc h.1, fun h => hproc h.1⟩) fun _ _ _ _ _ _ => id
  | left q conn group members =>
    exact h.extend id (fun _ _ _ _ => ⟨id, id⟩) fun _ _ _ _ _ _ h => hproc h.1
  | dropped q => exact h.extend hproc (fun _ _ _ _ => ⟨id, id⟩) fun _ _ _ _ _ _ => id

/-- One process gets a new state, and its history an event. -/
theorem StoreBacked.insert {p : KafkaProcessGroups} {e : GroupEvent}
    (h : StoreBacked times lru events) (hproc : e.process = proc)
    (hp : ProcessBacked times proc p (events ++ [e])) :
    StoreBacked times (lru.insert proc p) (events ++ [e]) := by
  intro q r hr
  rw [get_insert] at hr
  split at hr
  · next hq =>
    cases hr
    rw [hq]
    exact hp
  · next hq => exact (h q r hr).extend_other fun hsame => hq (hsame.symm.trans hproc)

/-- One process loses some of its state. -/
theorem StoreBacked.shrink {p p' : KafkaProcessGroups} (h : StoreBacked times lru events)
    (hp : AList.lookup proc lru = some p) (hw : Within p' p) :
    StoreBacked times (lru.insert proc p') events := by
  intro q r hr
  rw [get_insert] at hr
  split at hr
  · next hq =>
    cases hr
    rw [hq]
    exact (h proc p hp).within hw
  · exact h q r hr

theorem Within.trans {p1 p2 p3 : KafkaProcessGroups} (h : Within p1 p2) (h' : Within p2 p3) :
    Within p1 p3 := by
  refine ⟨h.since.trans h'.since, fun group g1 hg1 => ?_⟩
  obtain ⟨g2, hg2, hfor, hmems⟩ := h.groups group g1 hg1
  obtain ⟨g3, hg3, hfor', hmems'⟩ := h'.groups group g2 hg2
  exact ⟨g3, hg3, fun h => hfor' (hfor h), fun key t ht => hmems' key t (hmems key t ht)⟩

/-- What `memberships` returns is within what the store has. -/
theorem memberships_spec {now : Int} {state : KafkaProcessGroups}
    (h : lru.memberships proc now = some state) :
    ∃ p, AList.lookup proc lru = some p ∧ state = p.dropExpired now ∧ Within state p := by
  obtain ⟨p, hp, rfl⟩ := Option.map_eq_some_iff.mp h
  exact ⟨p, hp, rfl, within_dropExpired p now⟩

section
variable (h : StoreBacked times lru events)
include h

theorem storeBacked_join (proc : KafkaProcess)
    (conn : BpfConnectionInfoT) (req : GroupRequest) (names : TopicNames) (now : JoinClock) :
    StoreBacked times (lru.join times proc conn req names now)
      (events ++ groupEvents times lru (.join proc conn req names now)) := by
  rw [KafkaConsumerGroups.join, groupEvents]
  cases hstate : lru.memberships proc now.memberships with
  | none =>
    by_cases hrec : (join ⟨∅, now.since⟩ times.ttl conn req names now.expires).2 = true
    · rw [if_pos hrec, if_pos hrec]
      refine h.insert rfl (.join (since_concat.mpr (.inl ⟨rfl, rfl⟩)) ?_ rfl hrec)
      intro group g hg
      cases hg
    · rw [if_neg hrec, if_neg hrec, append_nil]
      exact h
  | some state =>
    obtain ⟨p, hp, -, hin⟩ := memberships_spec hstate
    simp only []
    split
    · next hrec =>
      have hback := (h proc p hp).within hin
      refine h.insert rfl (.join ?_ ?_ rfl hrec)
      · refine since_concat.mpr (.inr ⟨hback.since, ?_⟩)
        rintro ⟨-, hnone⟩
        cases hnone
      · exact fun group g hg => ⟨hback.consumer group g hg, hback.members group g hg⟩
    · next hrec =>
      rw [append_nil]
      rw [Bool.not_eq_true] at hrec
      exact h.shrink hp ((join_not_recorded hrec).trans hin)

theorem storeBacked_leave (proc : KafkaProcess)
    (conn : BpfConnectionInfoT) (group : String) (members : List String) (now : Int) :
    StoreBacked times (lru.leave proc conn group members now)
      (events ++ [.left proc conn group members]) := by
  rw [KafkaConsumerGroups.leave]
  cases hstate : lru.memberships proc now with
  | none =>
    intro q r hr
    refine (h q r hr).extend_other fun hsame => ?_
    change proc = q at hsame
    rw [KafkaConsumerGroups.memberships, hsame, hr] at hstate
    cases hstate
  | some state =>
    obtain ⟨p, hp, -, hin⟩ := memberships_spec hstate
    obtain ⟨hleave, hrms⟩ := leave_spec proc state conn group members
    have hback := (h proc p hp).within (hleave.trans hin)
    exact h.insert rfl (hback.extend id (fun _ _ _ _ => ⟨id, id⟩) hrms)

theorem storeBacked_call (call : GroupCall) :
    StoreBacked times (lru.call times call) (events ++ groupEvents times lru call) := by
  cases call with
  | join proc conn req names now => exact storeBacked_join h proc conn req names now
  | leave proc conn group members now => exact storeBacked_leave h proc conn group members now
  | enrich proc req names now =>
    rw [groupEvents, append_nil, KafkaConsumerGroups.call, KafkaConsumerGroups.enrich]
    cases hstate : lru.memberships proc now with
    | none => exact h
    | some state =>
      obtain ⟨p, hp, -, hin⟩ := memberships_spec hstate
      exact h.shrink hp ((within_enrich state req names).trans hin)
  | lookup proc topic now later topicOrder groupOrder =>
    rw [groupEvents, append_nil, KafkaConsumerGroups.call, KafkaConsumerGroups.lookup]
    cases hstate : lru.memberships proc now with
    | none => exact h
    | some state =>
      obtain ⟨p, hp, -, hin⟩ := memberships_spec hstate
      simp only []
      split
      · exact h.shrink hp hin
      · exact h.shrink hp hin
  | drop proc =>
    intro q r hr
    rw [KafkaConsumerGroups.call.eq_def, get_erase] at hr
    split at hr
    · cases hr
    · next hq => exact (h q r hr).extend_other fun hsame => hq hsame.symm

end

theorem storeBacked_run (times : KafkaTimes) (calls : List GroupCall) :
    StoreBacked times (calls.foldl (GroupRun.step times) .init).lru
      (calls.foldl (GroupRun.step times) .init).events := by
  refine foldlRecOn calls _ ?_ fun run h call _ => storeBacked_call h call
  intro proc p hp
  cases hp

end

/-! ## The group of a Fetch -/

section
variable {p : KafkaProcessGroups} {topic group : String}

theorem hasConsumer_iff :
    HasConsumer p group ↔ ∃ g, p.groups.lookup group = some g ∧ g.foreign = false := by
  rw [HasConsumer, Option.any_eq_true]
  simp

/-- The loop passes over the groups that have no subscriber and stops at the
second one that has. -/
theorem topicLoop_cons (found : String × Bool) (candidate : String) (rest : List String) :
    p.topicGroupLoop topic found (candidate :: rest) = if HasSubscriber p topic candidate then
        if found.2 then ("", true) else p.topicGroupLoop topic (candidate, true) rest
      else p.topicGroupLoop topic found rest := by
  rw [topicGroupLoop]
  cases hg : p.groups.lookup candidate with
  | none => simp [HasSubscriber, hg]
  | some g =>
    simp only [HasSubscriber, hg, Option.any_some]
    cases g.foreign with
    | true => rfl
    | false =>
      cases g.subscribed topic with
      | true | false => rfl

variable (order : List String)

theorem topicLoop_found (hgroup : group ≠ "") (first : String)
    (h : (p.topicGroupLoop topic (first, true) order).1 = group) :
    group = first ∧ ∀ other ∈ order, ¬ HasSubscriber p topic other := by
  induction order with
  | nil => exact ⟨h.symm, fun _ hoth => absurd hoth not_mem_nil⟩
  | cons candidate rest ih =>
    rw [topicLoop_cons] at h
    split at h
    · exact absurd h.symm hgroup
    · next hnot =>
      obtain ⟨hfst, hrest⟩ := ih h
      exact ⟨hfst, forall_mem_cons.mpr ⟨hnot, hrest⟩⟩

theorem topicLoop_true (first : String) :
    (p.topicGroupLoop topic (first, true) order).2 = true := by
  induction order with
  | nil => rfl
  | cons candidate rest ih =>
    rw [topicLoop_cons]
    split
    · rfl
    · exact ih

/-- The group the loop finds is the only one that has a subscriber. -/
theorem topicGroup_subscribed (hgroup : group ≠ "")
    (hfnd : (p.topicGroup topic order).2 = true) (h : (p.topicGroup topic order).1 = group) :
    HasSubscriber p topic group ∧ ∀ other ∈ order, HasSubscriber p topic other → other = group := by
  rw [topicGroup] at hfnd h
  induction order with
  | nil => cases hfnd
  | cons candidate rest ih =>
    rw [topicLoop_cons] at hfnd h
    split at h
    · next hcand =>
      obtain ⟨rfl, hrest⟩ := topicLoop_found rest hgroup candidate h
      refine ⟨hcand, forall_mem_cons.mpr ⟨fun _ => rfl, fun other hoth hsub => ?_⟩⟩
      exact absurd hsub (hrest other hoth)
    · next hnot =>
      rw [if_neg hnot] at hfnd
      obtain ⟨hsub, hrest⟩ := ih hfnd h
      exact ⟨hsub, forall_mem_cons.mpr ⟨fun hsub => absurd hsub hnot, hrest⟩⟩

theorem topicGroup_unsubscribed (hfnd : (p.topicGroup topic order).2 = false) :
    ∀ other ∈ order, ¬ HasSubscriber p topic other := by
  rw [topicGroup] at hfnd
  induction order with
  | nil => exact fun _ hoth => absurd hoth not_mem_nil
  | cons candidate rest ih =>
    rw [topicLoop_cons] at hfnd
    split at hfnd
    · rw [if_neg Bool.false_ne_true, topicLoop_true] at hfnd
      cases hfnd
    · next hnot => exact forall_mem_cons.mpr ⟨hnot, ih hfnd⟩

theorem consumerLoop_cons (single candidate : String) (rest : List String) :
    p.consumerGroupLoop single (candidate :: rest) = if HasConsumer p candidate then
        if single ≠ "" then "" else p.consumerGroupLoop candidate rest
      else p.consumerGroupLoop single rest := by
  rw [consumerGroupLoop]
  cases hg : p.groups.lookup candidate with
  | none => simp [HasConsumer, hg]
  | some g =>
    simp only [HasConsumer, hg, Option.any_some]
    cases g.foreign with
    | true | false => rfl

theorem consumerLoop_single (hgroup : group ≠ "") {single : String}
    (hsingle : single ≠ "") (h : p.consumerGroupLoop single order = group) :
    group = single ∧ ∀ other ∈ order, ¬ HasConsumer p other := by
  induction order with
  | nil => exact ⟨h.symm, fun _ hoth => absurd hoth not_mem_nil⟩
  | cons candidate rest ih =>
    rw [consumerLoop_cons] at h
    split at h
    · exact absurd h.symm hgroup
    · next hnot =>
      obtain ⟨hfst, hrest⟩ := ih h
      exact ⟨hfst, forall_mem_cons.mpr ⟨hnot, hrest⟩⟩

/-- The group `consumerGroup` returns is the only one with a name. -/
theorem consumerGroup_spec (hgroup : group ≠ "") (h : p.consumerGroup order = group) :
    HasConsumer p group ∧ ∀ other ∈ order, HasConsumer p other → other ≠ "" → other = group := by
  rw [consumerGroup] at h
  induction order with
  | nil => exact absurd h.symm hgroup
  | cons candidate rest ih =>
    rw [consumerLoop_cons] at h
    split at h
    · next hcand =>
      by_cases hname : candidate = ""
      · rw [hname] at h ⊢
        obtain ⟨hcons, hrest⟩ := ih h
        exact ⟨hcons, forall_mem_cons.mpr ⟨fun _ hne => absurd rfl hne, hrest⟩⟩
      obtain ⟨rfl, hrest⟩ := consumerLoop_single rest hgroup hname h
      refine ⟨hcand, forall_mem_cons.mpr ⟨fun _ _ => rfl, fun other hoth hcons => ?_⟩⟩
      exact absurd hcons (hrest other hoth)
    · next hnot =>
      obtain ⟨hcons, hrest⟩ := ih h
      exact ⟨hcons, forall_mem_cons.mpr ⟨fun h => absurd h hnot, hrest⟩⟩

theorem mem_order {order : List String} (horder : order.Perm p.groups.keys)
    (h : HasConsumer p group) : group ∈ order := by
  obtain ⟨g, hg, -⟩ := hasConsumer_iff.mp h
  exact horder.mem_iff.mpr (AList.lookup_isSome.mp (by rw [hg]; rfl))

theorem hasConsumer_of_sub (h : HasSubscriber p topic group) : HasConsumer p group := by
  obtain ⟨g, hg, hsubscribed⟩ := (Option.any_eq_true ..).mp h
  rw [Bool.and_eq_true, Bool.not_eq_true'] at hsubscribed
  exact hasConsumer_iff.mpr ⟨g, hg, hsubscribed.1⟩

end

/-- The parser reads no empty group id. -/
theorem readGroupID_ne_empty {header : KafkaRequestHeader} {r r' : LargeBufferReader}
    {groupID : String} (h : (readGroupID header).on r = some (.ok groupID, r')) :
    groupID ≠ "" := by
  change Script.run _ (ExceptT.run (readPrintableString header) >>= ExceptT.bindCont _) r = _ at h
  rw [Script.run_bind] at h
  obtain ⟨⟨res, r1⟩, -, hnext⟩ := Option.bind_eq_some_iff.mp h
  cases res with
  | error e => cases hnext
  | ok id =>
    simp only [ExceptT.bindCont] at hnext
    split at hnext
    · cases hnext
    · next hne =>
      cases hnext
      exact hne

/-- A request of the history was one of a `Join`. -/
theorem joined_call {times : KafkaTimes} {calls : List GroupCall} {proc : KafkaProcess}
    {conn : BpfConnectionInfoT} {req : GroupRequest} {time : Int} {since : Option Int}
    {newGroup : Bool} (h : .joined proc conn req time since newGroup ∈
      (calls.foldl (GroupRun.step times) .init).events) :
    ∃ names now, .join proc conn req names now ∈ calls := by
  refine foldlRecOn (motive := fun run => GroupEvent.joined proc conn req time since newGroup ∈
    run.events → _) calls (GroupRun.step times) (fun h => absurd h not_mem_nil) ?_ h
  intro run ih call hcall h
  rcases mem_append.mp h with h | h
  · exact ih h
  cases call with
  | join proc' conn' req' names now =>
    rw [groupEvents] at h
    split at h <;> split at h <;> simp only [mem_singleton, not_mem_nil] at h
    all_goals
      cases h
      exact ⟨names, now, hcall⟩
  | leave proc' conn' group members now => exact absurd (mem_singleton.mp h) (by simp)
  | enrich proc' req' names now => exact absurd h not_mem_nil
  | lookup proc' topic now later topicOrder groupOrder => exact absurd h not_mem_nil
  | drop proc' => exact absurd (mem_singleton.mp h) (by simp)

/-- In every run: a group that `Lookup` returns was seen in a state old enough,
has a member that is alive, has been one of consumers since it was created, and
is the only one that can have sent the Fetch. -/
theorem lookup_sound (times : KafkaTimes) (calls : List GroupCall) (proc : KafkaProcess)
    (topic group : String) (now later : Int) (topicOrder groupOrder : List String)
    (hparsed : ∀ call ∈ calls, Received call)
    (horder : ∀ p, (calls.foldl (GroupRun.step times) .init).lru.memberships proc now = some p →
      topicOrder.Perm p.groups.keys ∧ groupOrder.Perm p.groups.keys)
    (hlookup : ((calls.foldl (GroupRun.step times) .init).lru.lookup times proc topic now later
      topicOrder groupOrder).1 = group)
    (hgroup : group ≠ "") :
    (∃ since, since + times.settle ≤ later ∧
      Since (GroupEvent.CreatesState proc since) (GroupEvent.EndsState proc)
        (calls.foldl (GroupRun.step times) .init).events) ∧
    (∃ key time, now < time + times.ttl ∧
      Since (GroupEvent.Asserts proc group key time) (GroupEvent.Removes proc group key)
        (calls.foldl (GroupRun.step times) .init).events) ∧
    ConsumerSince (calls.foldl (GroupRun.step times) .init).events proc group ∧
    ∃ p, (calls.foldl (GroupRun.step times) .init).lru.memberships proc now = some p ∧
      ((HasSubscriber p topic group ∧ ∀ other, HasSubscriber p topic other → other = group) ∨
        ((∀ other, ¬ HasSubscriber p topic other) ∧ HasConsumer p group ∧
          ∀ other, HasConsumer p other → other = group)) := by
  have hback := storeBacked_run times calls
  have hnamed : ∀ other, ConsumerSince (calls.foldl (GroupRun.step times) .init).events proc
      other → other ≠ "" := by
    rintro other ⟨before, e, after, hevents, ⟨hcreates, -⟩, -⟩
    cases e with
    | joined proc' conn req time since newGroup =>
      obtain ⟨names, clock, hcall⟩ := joined_call
        (hevents ▸ mem_append_right before mem_cons_self)
      obtain ⟨header, r, r', hread⟩ := hparsed _ hcall
      exact hcreates.2.1 ▸ readGroupID_ne_empty hread
    | left proc' conn group members => exact hcreates.elim
    | dropped proc' => exact hcreates.elim
  generalize calls.foldl (GroupRun.step times) .init = run at *
  rw [KafkaConsumerGroups.lookup] at hlookup
  cases hstate : run.lru.memberships proc now with
  | none =>
    rw [hstate] at hlookup
    exact absurd hlookup.symm hgroup
  | some p =>
    rw [hstate] at hlookup
    simp only [] at hlookup
    obtain ⟨q, hq, hdrop, hin⟩ := memberships_spec hstate
    have hp := (hback proc q hq).within hin
    obtain ⟨htopic, hgrps⟩ := horder p hstate
    split at hlookup
    · exact absurd hlookup.symm hgroup
    · next hset =>
      have honly : (HasSubscriber p topic group ∧
          ∀ other, HasSubscriber p topic other → other = group) ∨
          ((∀ other, ¬ HasSubscriber p topic other) ∧ HasConsumer p group ∧
            ∀ other, HasConsumer p other → other = group) := by
        split at hlookup
        · next hfnd =>
          obtain ⟨hsub, hoth⟩ := topicGroup_subscribed _ hgroup hfnd hlookup
          exact .inl ⟨hsub, fun other h =>
            hoth other (mem_order htopic (hasConsumer_of_sub h)) h⟩
        · next hfnd =>
          rw [Bool.not_eq_true] at hfnd
          obtain ⟨hcons, hoth⟩ := consumerGroup_spec _ hgroup hlookup
          refine .inr ⟨fun other h => ?_, hcons, fun other h => ?_⟩
          · have hmem := mem_order htopic (hasConsumer_of_sub h)
            exact topicGroup_unsubscribed _ hfnd other hmem h
          · obtain ⟨g, hg, hfor⟩ := hasConsumer_iff.mp h
            exact hoth other (mem_order hgrps h) h (hnamed other (hp.consumer other g hg hfor))
      have hcons : HasConsumer p group :=
        honly.elim (fun h => hasConsumer_of_sub h.1) fun h => h.2.1
      obtain ⟨g, hg, hfor⟩ := hasConsumer_iff.mp hcons
      rw [hdrop] at hg
      obtain ⟨key, t, ht, halive⟩ := alive_of_dropExpired hg
      rw [← hdrop] at hg
      obtain ⟨time, rfl, hass⟩ := hp.members group g hg key t ht
      exact ⟨⟨p.since, not_lt.mp hset, hp.since⟩, ⟨key, time, halive, hass⟩,
        hp.consumer group g hg hfor, p, rfl, honly⟩

def fetchTimes : KafkaTimes := ⟨10, 10⟩

def fetcher : KafkaProcess := ⟨1, 7⟩

def fetcherConn : BpfConnectionInfoT := ⟨.replicate 16 0, .replicate 16 0, 40000, 9092⟩

/-- A request of a member of the group, at time `t`. -/
def joinOf (group protocolType : String) (t : Int) : GroupCall :=
  .join fetcher fetcherConn ⟨group, "member", [⟨"events", none⟩], protocolType, true⟩
    (fun _ => none) ⟨t, t, t⟩

/-- Three groups: one of consumers, one that its member leaves, and one of another protocol. -/
def fetcherCalls : List GroupCall :=
  [joinOf "orders" "consumer" 0, joinOf "old" "consumer" 1, joinOf "sink" "connect" 2,
    .leave fetcher fetcherConn "old" ["member"] 3, joinOf "orders" "" 5]

theorem received_joinOf {group protocolType : String} {t : Int} (b : List UInt8)
    (h : ∃ r', (readGroupID ⟨.heartbeat, 0⟩).on (LargeBuffer.newReader ⟨[b], _, rfl⟩) =
      some (.ok group, r')) : Received (joinOf group protocolType t) :=
  ⟨_, _, h⟩

theorem lookup_sound_orders :
    ((fetcherCalls.foldl (GroupRun.step fetchTimes) .init).lru.lookup fetchTimes fetcher "events"
        11 11 ["sink", "orders"] ["orders", "sink"]).1 = "orders" ∧
      ConsumerSince (fetcherCalls.foldl (GroupRun.step fetchTimes) .init).events
        fetcher "orders" := by
  have hlookup : ((fetcherCalls.foldl (GroupRun.step fetchTimes) .init).lru.lookup fetchTimes
      fetcher "events" 11 11 ["sink", "orders"] ["orders", "sink"]).1 = "orders" := by
    decide +kernel
  have hkeys : ((fetcherCalls.foldl (GroupRun.step fetchTimes) .init).lru.memberships fetcher
      11).map (fun p => p.groups.keys) = some ["orders", "sink"] := by decide +kernel
  refine ⟨hlookup, (lookup_sound fetchTimes fetcherCalls fetcher "events" "orders" 11 11
    ["sink", "orders"] ["orders", "sink"] ?_ (fun p hp => ?_) hlookup (by decide)).2.2.1⟩
  · have horders (protocolType : String) (t : Int) : Received (joinOf "orders" protocolType t) :=
      received_joinOf [0, 6, 111, 114, 100, 101, 114, 115] ⟨_, rfl⟩
    simp only [fetcherCalls, forall_mem_cons]
    exact ⟨horders _ _, received_joinOf [0, 3, 111, 108, 100] ⟨_, rfl⟩,
      received_joinOf [0, 4, 115, 105, 110, 107] ⟨_, rfl⟩, trivial, horders _ _,
      fun _ h => absurd h not_mem_nil⟩
  · rw [hp, Option.map_some] at hkeys
    rw [Option.some.inj hkeys]
    exact ⟨.swap _ _ _, .refl _⟩

end Obi.Refine
