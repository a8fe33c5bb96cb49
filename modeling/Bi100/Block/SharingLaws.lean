import Bi100.Block.Sharing

/-!
# The methods of the prefix-caching allocator keep `Sharing`

- A full block that follows hashed blocks has a hash (`hasHash_of_full`), and a block that tokens
  were appended to has a hash or an id of its own (`appendTokenIds_apart`), as copy on write comes
  before the promotion.
- `forkBlocks_ids`: a copy holds the id of its source.
- `allocateMutableBlock_sharing`, `allocateImmutableBlocks_sharing`, `appendTokenIds_sharing`,
  `fork_sharing`, `swapIn_sharing`, `swapOut_sharing`: the methods.
-/

namespace Bi100

open Py AllocState

variable {H : Type} [DecidableEq H] [Sha256 H]

namespace PrefixCachingBlockAllocator

variable {s s' : AllocState H} {r : Ref} {id : Nat}

/-! ## Full blocks -/

omit [DecidableEq H] in
/-- A full block has a hash if it is the first one, or if the one before it has. -/
theorem hasHash_of_full (hfull : s.blockSize - (s.heap r).tokenIds.length = 0)
    (hprev : ∀ p, (s.heap r).prevBlock = some p → ∃ h, HasHash s.blockSize s.heap p h) :
    ∃ h, HasHash s.blockSize s.heap r h := by
  cases hp : (s.heap r).prevBlock with
  | none => exact ⟨_, .first hfull hp⟩
  | some p =>
    obtain ⟨h, hh⟩ := hprev p hp
    exact ⟨_, .next hfull hp hh⟩

omit [DecidableEq H] in
/-- The blocks of a chain have hashes as long as they are full. -/
theorem Chain.hasHash {blocks : List Ref} {i : Nat} (h : Chain s.heap none blocks)
    (hfull : ∀ j ≤ i, ∀ q, blocks[j]? = some q → s.blockSize - (s.heap q).tokenIds.length = 0)
    (hr : blocks[i]? = some r) : ∃ x, HasHash s.blockSize s.heap r x := by
  induction i generalizing r with
  | zero =>
    refine hasHash_of_full (hfull 0 (Nat.le_refl 0) r hr) fun p hp => ?_
    rw [h.getElem_zero hr] at hp
    cases hp
  | succ i ih =>
    refine hasHash_of_full (hfull (i + 1) (Nat.le_refl _) r hr) fun p hp => ?_
    rw [h.getElem_succ hr] at hp
    exact ih (fun j hj => hfull j (by omega)) hp

/-! ## Appending -/

/-- After tokens were appended a block has a hash, or it is the only one that holds its id. -/
theorem appendTokenIds_apart {tokenIds : List Nat} {u : Unit} (hc : Inv ⟨[], none, s⟩)
    (hp : s.PredsLive) (hr : r ∈ s.live)
    (hlast : ∀ q ∈ s.live, (s.heap q).prevBlock = some r → s.isFull q = false)
    (hne : tokenIds ≠ []) (h : (appendTokenIds r tokenIds).run s = .ok u s') : s'.Apart r := by
  rw [appendTokenIds] at h
  obtain ⟨x, s₁, h₁, h⟩ := run_bind_ok.mp h
  obtain ⟨hsame, hsound, hiff⟩ := contentHash_ok h₁ hc.sound (.live hr)
  rw [run_raiseUnless_bind_ok] at h
  obtain ⟨rfl, h⟩ := h
  rw [run_get_bind, run_raiseIf_bind_ok, if_neg hne] at h
  have hc₁ := hc.hashes hsame hsound
  have hp₁ := hsame.sameLive.predsLive hp
  have hr₁ : r ∈ s₁.live := hsame.live_eq ▸ hr
  have hno : ∀ y, ¬ HasHash s₁.blockSize s₁.heap r y := fun y hy =>
    absurd ((hiff y).mpr (hsame.hasHash_iff.mp hy)) (by simp)
  obtain ⟨_, s₂, h₂, h⟩ := run_bind_ok.mp h.2
  obtain ⟨happ, hcount⟩ :=
    naiveAppendTokenIds_ok hc₁ hp₁ hr₁ hno (lastBlock_of_hashes hsame hlast) h₂
  obtain ⟨_, s₃, h₃, h⟩ := run_bind_ok.mp h
  obtain ⟨happ, hcount⟩ := updateNumTokensTotal_ok happ hr₁ hcount h₃
  obtain ⟨hset, hids⟩ := promoteIfHashed_ok (happ.steps.inv hc₁) (happ.predsLive hp₁)
    (happ.live ▸ hr₁) hcount h
  by_cases hh : ∃ x, HasHash s'.blockSize s'.heap r x
  · exact .inl hh
  · exact .inr fun id hid => (hids id hid).resolve_left hh

theorem appendTokenIds_sharing {tokenIds : List Nat} {K : Ref → Prop} (hs : s.Sharing)
    (hc : Inv ⟨[], none, s⟩) (hp : s.PredsLive) (hpos : 0 < s.blockSize) (hr : r ∈ s.live)
    (hlast : ∀ q ∈ s.live, (s.heap q).prevBlock = some r → s.isFull q = false)
    (hne : tokenIds ≠ [])
    (hclosed : ∀ q p, K q → (s.heap q).prevBlock = some p → K p)
    (hK : ∀ q, K q → q ∈ s.live ∧ q ≠ r)
    (hempty : ∀ q ∈ s.live, q ≠ r → (s.heap q).tokenIds ≠ [] → K q)
    (h : (appendTokenIds r tokenIds).run s = .ok () s') :
    s'.Sharing ∧ (s'.heap r).cacheNamespace = (s.heap r).cacheNamespace := by
  obtain ⟨hc', hext, -⟩ := lawful.append hc hp hr hlast h
  obtain ⟨ha, -⟩ := appendTokenIds_ok hc hp hr hlast h
  exact ⟨hs.of_extended hc' hp hpos hext ha.cacheNamespace
    (appendTokenIds_apart hc hp hr hlast hne h) hclosed hK hempty, ha.cacheNamespace⟩

/-! ## Allocating -/

theorem allocateMutableBlock_sharing {prevBlock : Option Ref} {ns : Bytes} (hs : s.Sharing)
    (hc : Inv ⟨[], none, s⟩) (hp : s.PredsLive) (hprev : s.PrevLive prevBlock)
    (h : (allocateMutableBlock prevBlock ns).run s = .ok r s') :
    s'.Sharing ∧ (prevBlock = none → (s'.heap r).cacheNamespace = ns) := by
  obtain ⟨hm, id, hid, hone⟩ := allocateMutableBlock_ok hc hp hprev h
  refine ⟨hs.of_new (hm.steps.inv hc) hp (hm.newBlocks (by rw [hid]; exact Option.some_ne_none id))
    fun q hq => ?_, hm.ns⟩
  obtain rfl := List.mem_singleton.mp hq
  exact .inr fun id' hid' => Option.some.inj (hid.symm.trans hid') ▸ hone

/-- New full blocks have hashes. -/
theorem allocateImmutableBlocks_sharing {ns : Bytes} {tokens : List (List Nat)} {rs : List Ref}
    (hs : s.Sharing) (hc : Inv ⟨[], none, s⟩) (hp : s.PredsLive)
    (hfull : ∀ tokenIds ∈ tokens, tokenIds.length = s.blockSize)
    (h : (allocateImmutableBlocks ns none tokens).run s = .ok rs s') :
    s'.Sharing ∧ ∀ r, rs[0]? = some r → (s'.heap r).cacheNamespace = ns := by
  have hprev : s.PrevLive none := fun q hq => (nomatch hq)
  obtain ⟨hsteps, hnew⟩ := allocateImmutableBlocks_ok hc hp hprev h
  refine ⟨hs.of_new (hsteps.inv hc) hp hnew fun r hr => ?_, fun r hr => ?_⟩
  · obtain ⟨i, hi⟩ := List.mem_iff_getElem?.mp hr
    refine .inl (hnew.chain.hasHash (fun j _ q hq => ?_) hi)
    have hmem : (s'.heap q).tokenIds ∈ tokens := by
      rw [← hnew.tokens]
      exact List.mem_map_of_mem (List.mem_of_getElem? hq)
    rw [hfull _ hmem, hnew.frame.blockSize, Nat.sub_self]
  · cases tokens with
    | nil =>
      obtain ⟨rfl, -⟩ := run_pure_ok.mp h
      cases hr
    | cons tokenIds rest =>
      rw [allocateImmutableBlocks] at h
      obtain ⟨r', s₁, h₁, h⟩ := run_bind_ok.mp h
      obtain ⟨rs', s₂, h₂, h⟩ := run_bind_ok.mp h
      obtain ⟨rfl, rfl⟩ := run_pure_ok.mp h
      obtain rfl := Option.some.inj hr
      obtain ⟨hm, -⟩ := allocateImmutableBlock_ok hc hp hprev h₁
      obtain ⟨-, hrest⟩ := allocateImmutableBlocks_ok (hm.steps.inv hc) (hm.predsLive hp hprev)
        (fun q hq => Option.some.inj hq ▸ hm.mem) h₂
      rw [← (hrest.frame.content hm.mem).cacheNamespace]
      exact hm.ns rfl

/-! ## Forking -/

/-- One iteration of the loop of `fork`: the copy has the id and the hash of its source. -/
theorem forkBlock_made {prevBlock q : Option Ref} {src : Ref} {size : Nat} {ids : List Nat}
    {b : PrefixCachingBlock H} (hc : Inv ⟨[], none, s⟩) (hp : s.PredsLive)
    (hcopy : Copied s q prevBlock) (hsrc : src ∈ s.live) (hq : (s.heap src).prevBlock = q)
    (hid : (s.heap src).blockId = some id)
    (hpop : PoolPop (withRefcount s id (s.refcounts id + 1)) r size ids)
    (hprev : b.prevBlock = prevBlock) (htok : b.tokenIds = (s.heap src).tokenIds)
    (hbid : b.blockId = some id) (hkept : b.cachedContentHash = none)
    (hns : prevBlock = none → b.cacheNamespace = (s.heap src).cacheNamespace)
    (hs' : s' = withBlock (withRefcount s id (s.refcounts id + 1)) r b size ids) :
    Made [] none s r prevBlock (s.heap src).tokenIds (s.heap src).cacheNamespace [] none s' ∧
      (s'.heap r).blockId = some id ∧
      ∀ y, HasHash s'.blockSize s'.heap r y ↔ HasHash s.blockSize s.heap src y := by
  subst hs' hprev
  have hshare : AllocStep ⟨[], none, s⟩ ⟨[id], none, _⟩ := .share (refcount_pos hc.count hsrc hid)
  have hc₁ := hshare.inv hc
  have hr : r ∉ s.live := (hpop.pool_ok hc₁.pool).2.2
  have hself : Function.update s.heap r b r = b := Function.update_self _ _ _
  have hprevLive : ∀ x, b.prevBlock = some x → x ∈ s.live := by
    intro x hx
    rcases hcopy with ⟨-, hn⟩ | ⟨q', p', -, hp', -, hl, -⟩
    · exact absurd (hn.symm.trans hx) (by simp)
    · exact Option.some.inj (hp'.symm.trans hx) ▸ hl
  have hold : ∀ x ∈ s.live, ∀ y, HasHash s.blockSize (Function.update s.heap r b) x y ↔
      HasHash s.blockSize s.heap x y := fun x hx y =>
    (HasHash.congr (K := (· ∈ s.live)) (fun a c ha hac => hp a ha c hac)
      (fun a ha => by rw [Function.update_of_ne (ne_of_mem_of_not_mem ha hr)]; exact .refl _)
      hx).symm
  have hhash : ∀ y, HasHash s.blockSize (Function.update s.heap r b) r y ↔
      HasHash s.blockSize s.heap src y := by
    intro y
    refine hasHash_of_copied (q := q) (p := b.prevBlock) (hcopy.imp_right ?_) hq (by rw [hself])
      (by rw [hself]; exact htok) (fun hn => by rw [hself]; exact hns hn) y
    rintro ⟨q', p', hq', hp', -, hl, hiff⟩
    exact ⟨q', p', hq', hp', fun x => (hold p' hl x).trans (hiff x)⟩
  have hnew := AllocStep.newForked (o := [id]) hpop hp hbid hkept hprevLive List.mem_cons_self hsrc
    hid hhash
  rw [List.erase_cons_head] at hnew
  refine ⟨⟨hshare.steps.tail hnew, hpop.live_insert hc₁.pool, hr, hpop.1,
    .of_eq rfl rfl fun x hx => Function.update_of_ne (ne_of_mem_of_not_mem hx hr) _ _,
    congrArg PrefixCachingBlock.prevBlock hself,
    (congrArg PrefixCachingBlock.tokenIds hself).trans htok,
    fun hn => (congrArg PrefixCachingBlock.cacheNamespace hself).trans (hns hn)⟩,
    (congrArg PrefixCachingBlock.blockId hself).trans hbid, hhash⟩

/-- A copy holds the id of its source, and the first one is in its namespace. -/
theorem forkBlocks_ids {prevBlock q : Option Ref} {sources rs : List Ref}
    (hc : Inv ⟨[], none, s⟩) (hp : s.PredsLive) (hcopy : Copied s q prevBlock)
    (hchain : Chain s.heap q sources) (hlive : ∀ r ∈ sources, r ∈ s.live)
    (h : (forkBlocks prevBlock sources).run s = .ok rs s') {i : Nat} {src r : Ref}
    (hi : sources[i]? = some src) (hr : rs[i]? = some r) :
    (s'.heap r).blockId = (s.heap src).blockId ∧ ((s'.heap r).prevBlock = none →
      (s'.heap r).cacheNamespace = (s.heap src).cacheNamespace) := by
  induction sources generalizing prevBlock q rs s i with
  | nil => cases hi
  | cons x rest ih =>
    rw [forkBlocks, getBlockId_bind_ok] at h
    obtain ⟨id, hid, h⟩ := h
    obtain ⟨n, s₁, h₁, h⟩ := run_bind_ok.mp h
    obtain ⟨-, rfl, rfl⟩ := refIncr_ok.mp h₁
    rw [run_raiseIf_bind_ok, run_get_bind] at h
    obtain ⟨-, h⟩ := h
    obtain ⟨y, s₂, h₂, h⟩ := run_bind_ok.mp h
    obtain ⟨rs', s₃, h₃, h⟩ := run_bind_ok.mp h
    obtain ⟨rfl, rfl⟩ := run_pure_ok.mp h
    have hx := hlive x List.mem_cons_self
    have hrest : ∀ z ∈ rest, z ∈ s.live := fun z hz => hlive z (List.mem_cons_of_mem _ hz)
    obtain ⟨size, ids, b, hpop, hs₂, hprev, htok, hbid, hkept, -, hns⟩ := initBlock_ok h₂
    obtain ⟨hm, hyid, hhash⟩ :=
      forkBlock_made hc hp hcopy hx hchain.1 hid hpop hprev htok hbid hkept hns hs₂
    have hprevLive : ∀ z, prevBlock = some z → z ∈ s.live := by
      intro z hz
      rcases hcopy with ⟨-, hn⟩ | ⟨q', p', -, hp', -, hl, -⟩
      · exact absurd (hn.symm.trans hz) (by simp)
      · exact Option.some.inj (hp'.symm.trans hz) ▸ hl
    have hsub : ∀ z ∈ s.live, z ∈ s₂.live := fun z hz => by
      rw [hm.live]
      exact Finset.mem_insert_of_mem hz
    have hc₂ := hm.steps.inv hc
    have hp₂ := hm.predsLive hp hprevLive
    have hcopy₂ : Copied s₂ (some x) (some y) := .inr ⟨x, y, rfl, rfl, hsub x hx, hm.mem, fun z =>
      (hhash z).trans (by
        rw [hm.frame.blockSize]
        exact HasHash.congr (K := (· ∈ s.live)) (fun a c ha hac => hp a ha c hac)
          (fun a ha => hm.frame.content ha) hx)⟩
    have hchain₂ : Chain s₂.heap (some x) rest :=
      hchain.2.congr fun z hz => (hm.frame.content (hrest z hz)).prevBlock.symm
    have hlive₂ : ∀ z ∈ rest, z ∈ s₂.live := fun z hz => hsub z (hrest z hz)
    cases i with
    | zero =>
      obtain rfl := Option.some.inj hi
      obtain rfl := Option.some.inj hr
      obtain ⟨-, hnew⟩ := forkBlocks_ok hc₂ hp₂ hcopy₂ hchain₂ hlive₂ h₃
      have hcont := hnew.frame.content hm.mem
      refine ⟨(hnew.frame.blockId hm.mem).trans (hyid.trans hid.symm), fun hn => ?_⟩
      rw [← hcont.cacheNamespace]
      exact hm.ns (hm.prev.symm.trans (hcont.prevBlock.trans hn))
    | succ i =>
      have hi : rest[i]? = some src := hi
      have hsrc := hrest src (List.mem_of_getElem? hi)
      obtain ⟨hids, hnamespace⟩ := ih hc₂ hp₂ hcopy₂ hchain₂ hlive₂ h₃ hi hr
      rw [hm.frame.blockId hsrc] at hids
      rw [← (hm.frame.content hsrc).cacheNamespace] at hnamespace
      exact ⟨hids, hnamespace⟩

/-- The copies are `Alike` to their sources. -/
theorem fork_sharing {sources rs : List Ref} (hs : s.Sharing) (hc : Inv ⟨[], none, s⟩)
    (hp : s.PredsLive) (hr : r ∈ s.live)
    (hall : getAllBlocksRecursively s.heap s.recursionLimit r = .ok sources)
    (h : (fork r).run s = .ok rs s') :
    s'.Sharing ∧ (∀ (i : Nat) src q, sources[i]? = some src → rs[i]? = some q →
      (s'.heap q).blockId = (s.heap src).blockId) ∧
      ∀ src q, sources[0]? = some src → rs[0]? = some q →
        (s'.heap q).cacheNamespace = (s.heap src).cacheNamespace := by
  rw [fork, run_get_bind, run_lift_bind_ok] at h
  obtain ⟨sources', hall', h⟩ := h
  obtain rfl : sources = sources' := Except.ok.inj (hall.symm.trans hall')
  obtain ⟨hchain, -, hlive⟩ := getAllBlocksRecursively_ok hp hr hall
  obtain ⟨hsteps, hnew⟩ := forkBlocks_ok hc hp (.inl ⟨rfl, rfl⟩) hchain hlive h
  have hids : ∀ (i : Nat) src q, sources[i]? = some src → rs[i]? = some q →
      (s'.heap q).blockId = (s.heap src).blockId := fun i src q hi hq =>
    (forkBlocks_ids hc hp (.inl ⟨rfl, rfl⟩) hchain hlive h hi hq).1
  have hfirst : ∀ src q, sources[0]? = some src → rs[0]? = some q →
      (s'.heap q).cacheNamespace = (s.heap src).cacheNamespace := fun src q hi hq =>
    (forkBlocks_ids hc hp (.inl ⟨rfl, rfl⟩) hchain hlive h hi hq).2 (hnew.chain.getElem_zero hq)
  refine ⟨?_, hids, hfirst⟩
  have hc' := hsteps.inv hc
  have hlen : rs.length = sources.length := by
    have := congrArg List.length hnew.tokens
    rwa [List.length_map, List.length_map] at this
  -- Every block is an old one, or the copy of one.
  have hsource : ∀ x ∈ s'.live, ∃ y ∈ s.live, (s'.heap x).blockId = (s.heap y).blockId ∧
      (x = y ∨ Alike s'.heap x y) := by
    intro x hx
    rcases (hnew.live x).mp hx with hx | hx
    · exact ⟨x, hx, hnew.frame.blockId hx, .inl rfl⟩
    · obtain ⟨i, hi⟩ := List.mem_iff_getElem?.mp hx
      have hlt := (List.getElem?_eq_some_iff.mp hi).1
      obtain ⟨y, hy⟩ : ∃ y, sources[i]? = some y := ⟨sources[i], List.getElem?_eq_getElem _⟩
      obtain ⟨x₀, hx₀⟩ : ∃ x₀, rs[0]? = some x₀ := ⟨rs[0], List.getElem?_eq_getElem (by omega)⟩
      obtain ⟨y₀, hy₀⟩ : ∃ y₀, sources[0]? = some y₀ :=
        ⟨sources[0], List.getElem?_eq_getElem (by omega)⟩
      have hkeep := fun z hz => hnew.frame.content (hlive z hz)
      refine ⟨y, hlive y (List.mem_of_getElem? hy), hids i y x hy hi, .inr ?_⟩
      refine Alike.of_tables hnew.chain (hchain.congr fun z hz => (hkeep z hz).prevBlock.symm) hx₀
        hy₀ ((hfirst y₀ x₀ hy₀ hx₀).trans
          (hkeep y₀ (List.mem_of_getElem? hy₀)).cacheNamespace) ?_ hi hy
      rw [hnew.tokens]
      exact List.map_congr_left fun z hz => (hkeep z hz).tokenIds
  intro x hx q hq hne id hid hid' hno
  obtain ⟨y, hy, hyid, hxy⟩ := hsource x hx
  obtain ⟨z, hz, hzid, hqz⟩ := hsource q hq
  have hy' : (s.heap y).blockId = some id := hyid.symm.trans hid
  have hz' : (s.heap z).blockId = some id := hzid.symm.trans hid'
  by_cases hyz : y = z
  · subst hyz
    rcases hxy with rfl | hxy
    · rcases hqz with rfl | hqz
      · exact absurd rfl hne
      · exact hqz.symm
    · rcases hqz with rfl | hqz
      · exact hxy
      · exact hxy.trans hqz.symm
  · have hnoy : ∀ h, ¬ HasHash s.blockSize s.heap y h := fun h hh => by
      refine hc'.no_hash hx (hnew.subset hy) hid ((hnew.frame.blockId hy).trans hy') hno h ?_
      rw [hnew.frame.blockSize]
      exact hh.mono (K := (· ∈ s.live)) (fun a c ha hac => hp a ha c hac)
        (fun a ha => hnew.frame.content ha) hy
    have hsame : Alike s'.heap y z := (hs y hy z hz hyz id hy' hz' hnoy).mono (K := (· ∈ s.live))
      (fun a c ha hac => hp a ha c hac) (fun a ha => hnew.frame.content ha) hy hz
    rcases hxy with rfl | hxy
    · rcases hqz with rfl | hqz
      · exact hsame
      · exact hsame.trans hqz.symm
    · rcases hqz with rfl | hqz
      · exact hxy.trans hsame
      · exact (hxy.trans hsame).trans hqz.symm

/-! ## Swapping -/

theorem swapOut_sharing {rs : List Ref} (hs : s.Sharing) (hc : Inv ⟨[], none, s⟩)
    (hp : s.PredsLive) (hlive : ∀ r ∈ rs, r ∈ s.live) (h : (swapOut rs).run s = .ok () s') :
    s'.Sharing := by
  obtain ⟨hsteps, hmoved⟩ := swapOut_ok hc hlive h
  refine hs.of_moved (hsteps.inv hc) hp hmoved fun r hr => .inr fun id hid => ?_
  have hnone := hmoved.blockId r hr
  rw [hid] at hnone
  cases hnone

/-- A temporary block that is not full has an id of its own. -/
theorem allocateSwapBlock_count {tmp : Ref} (hc : Inv ⟨[], none, s⟩) (hp : s.PredsLive)
    (hr : r ∈ s.live) (hfull : s.isFull r = false)
    (h : (allocateSwapBlock r).run s = .ok tmp s') :
    ∃ id, (s'.heap tmp).blockId = some id ∧ s'.refcounts id = 1 := by
  have hprev : ∀ q, (s.heap r).prevBlock = some q → q ∈ s.live := hp r hr
  rw [allocateSwapBlock, run_get_bind] at h
  dsimp only at h
  rw [if_neg (by rw [hfull]; exact Bool.false_ne_true)] at h
  obtain ⟨tmp', s₁, h₁, h⟩ := run_bind_ok.mp h
  obtain ⟨_, s₂, h₂, h⟩ := run_bind_ok.mp h
  obtain ⟨rfl, rfl⟩ := run_pure_ok.mp h
  obtain ⟨hm, id, hid, hone⟩ := allocateMutableBlock_ok hc hp hprev h₁
  have hlast : ∀ q ∈ s₁.live, (s₁.heap q).prevBlock = some tmp → s₁.isFull q = false :=
    fun q hq he => absurd he (hm.no_successor hp hprev q hq)
  obtain ⟨hm', id', hid'⟩ := allocateMutable_append_ok hc hp hprev h₁ h₂
  refine ⟨id', hid', ?_⟩
  by_cases hnil : (s.heap r).tokenIds = []
  · rw [appendTokenIds] at h₂
    obtain ⟨x, s₃, h₃, h₂⟩ := run_bind_ok.mp h₂
    obtain ⟨hsame, -, -⟩ := contentHash_ok h₃ (hm.steps.inv hc).sound (.live hm.mem)
    rw [run_raiseUnless_bind_ok, run_get_bind, run_raiseIf_bind_ok, if_pos hnil] at h₂
    obtain ⟨-, rfl⟩ := run_pure_ok.mp h₂.2.2
    rw [hsame.block tmp] at hid'
    obtain rfl := Option.some.inj (hid.symm.trans hid')
    rw [hsame.state]
    exact hone
  · refine (appendTokenIds_apart (hm.steps.inv hc) (hm.predsLive hp hprev) hm.mem hlast hnil
      h₂).resolve_left ?_ id' hid'
    rintro ⟨x, hx⟩
    have hnot := of_decide_eq_false hfull
    have := hx.full
    rw [hm'.tokens, hm'.frame.blockSize] at this
    exact hnot this

theorem swapInBlock_apart {u : Unit} (hc : Inv ⟨[], none, s⟩) (hp : s.PredsLive)
    (hr : r ∈ s.live) (hnone : (s.heap r).blockId = none)
    (hfull : s.isFull r = true → ∃ h, HasHash s.blockSize s.heap r h)
    (h : (swapInBlock r).run s = .ok u s') : s'.Apart r := by
  by_cases hf : s.isFull r = true
  · obtain ⟨x, hx⟩ := hfull hf
    obtain ⟨-, hmoved⟩ := swapInBlock_ok hc hp hr hnone h
    refine .inl ⟨x, ?_⟩
    rw [hmoved.frame.blockSize]
    exact hx.mono (K := (· ∈ s.live)) (fun a c ha hac => hp a ha c hac)
      (fun a ha => hmoved.sameContent ha) hr
  · rw [swapInBlock] at h
    obtain ⟨tmp, s₁, h₁, h⟩ := run_bind_ok.mp h
    obtain ⟨id, hid, hone⟩ := allocateSwapBlock_count hc hp hr (Bool.eq_false_iff.mpr hf) h₁
    rw [run_get_bind] at h
    dsimp only at h
    rw [hid] at h
    obtain ⟨_, s₂, h₂, h⟩ := run_bind_ok.mp h
    obtain rfl := poolFree_ok.mp h₂
    obtain rfl := setBlockId_ok.mp h
    refine .inr fun id' hid' => ?_
    rw [withId_self] at hid'
    obtain rfl := Option.some.inj hid'
    exact hone

theorem swapIn_sharing {rs : List Ref} {u : PUnit} (hs : s.Sharing) (hc : Inv ⟨[], none, s⟩)
    (hp : s.PredsLive) (hlive : ∀ r ∈ rs, r ∈ s.live ∧ (s.heap r).blockId = none)
    (hnodup : rs.Nodup)
    (hfull : ∀ r ∈ rs, s.isFull r = true → ∃ h, HasHash s.blockSize s.heap r h)
    (h : (swapIn rs).run s = .ok u s') : s'.Sharing := by
  rw [swapIn] at h
  induction rs generalizing s with
  | nil =>
    rw [List.forM_nil] at h
    obtain ⟨-, rfl⟩ := run_pure_ok.mp h
    exact hs
  | cons r rest ih =>
    rw [List.forM_cons] at h
    obtain ⟨_, s₁, h₁, h⟩ := run_bind_ok.mp h
    obtain ⟨hr, hnone⟩ := hlive r List.mem_cons_self
    obtain ⟨hsteps, hmoved⟩ := swapInBlock_ok hc hp hr hnone h₁
    obtain ⟨hnr, hnodup⟩ := List.nodup_cons.mp hnodup
    have hc₁ := hsteps.inv hc
    have hapart := swapInBlock_apart hc hp hr hnone (hfull r List.mem_cons_self) h₁
    refine ih (hs.of_moved hc₁ hp hmoved fun q hq => List.mem_singleton.mp hq ▸ hapart) hc₁
      (hmoved.predsLive hp) (fun q hq => ?_) hnodup (fun q hq hf => ?_) h
    · obtain ⟨hql, hqn⟩ := hlive q (List.mem_cons_of_mem _ hq)
      refine ⟨hmoved.live ▸ hql, (hmoved.blockId_of_not_mem hql ?_).trans hqn⟩
      exact fun hm => hnr (List.mem_singleton.mp hm ▸ hq)
    · have hql := (hlive q (List.mem_cons_of_mem _ hq)).1
      have hcont := hmoved.sameContent hql
      have hf₀ : s.isFull q = true := by
        rw [AllocState.isFull, hcont.tokenIds, ← hmoved.frame.blockSize]
        exact hf
      obtain ⟨x, hx⟩ := hfull q (List.mem_cons_of_mem _ hq) hf₀
      refine ⟨x, ?_⟩
      rw [hmoved.frame.blockSize]
      exact hx.mono (K := (· ∈ s.live)) (fun a c ha hac => hp a ha c hac)
        (fun a ha => hmoved.sameContent ha) hql

end PrefixCachingBlockAllocator

end Bi100
