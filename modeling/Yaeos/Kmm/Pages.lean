import Mathlib.Data.List.Count
import Mathlib.Data.List.Perm.Basic
import Yaeos.Kmm.Layout

/-!
# The pages of the caches (`kernel/mm/kmm.c`)

A state is read together with a view of it: which slabs belong to which cache,
which objects are handed out, and which pages are on no slab.  `Kmm.LaidOut`
says that every buffer of every slab is handed out or on the free list of the
slab, once, and that every page obtained is on one slab, loose or released.
What the lists of the caches and the counters of the slabs say does not matter
here.
-/

namespace Yaeos

/-- A slab or an object with the cache it belongs to. -/
abbrev KmmEntry : Type := KmmCacheRef × Nat

structure KmmView where
  slabs : List KmmEntry
  /-- The objects handed out, also those that `kmm` itself uses. -/
  held : List KmmEntry
  /-- The pages obtained that are on no slab. -/
  loose : List Nat

namespace Kmm

def layout (kmm : Kmm) (ref : KmmCacheRef) : KmmCacheLayout := (kmm.cache ref).toKmmCacheLayout

/-- The page of a slab. -/
def page (kmm : Kmm) (entry : KmmEntry) : Nat := (kmm.slab entry.2).page

/-- The addresses of the free buffers of a slab. -/
def freeMems (kmm : Kmm) (entry : KmmEntry) : List Nat :=
  (kmm.slab entry.2).freeBuffers.map fun ctl => bufctlMem ctl (kmm.layout entry.1)

/-- The objects of a list that lie on a page. -/
def onPage (objects : List KmmEntry) (page : Nat) : List KmmEntry :=
  objects.filter fun object => pageOf object.2 = page

/-- A slab in its page: each buffer is free or handed out, once. -/
structure SlabLaidOut (kmm : Kmm) (held : List KmmEntry) (entry : KmmEntry) : Prop where
  sound : (kmm.layout entry.1).Sound
  valid : ValidPage (kmm.page entry)
  owned : kmm.owner (kmm.page entry) = some entry.2
  place : (kmm.layout entry.1).large = false → entry.2 = kmm.page entry + sizeofPage
  buffers : ∃ start, (kmm.layout entry.1).Fits (kmm.page entry) start ∧
    ((kmm.freeMems entry).map (Prod.mk entry.1) ++ onPage held (kmm.page entry)).Perm
      (((kmm.layout entry.1).buffers start).map (Prod.mk entry.1))
  ctls : (kmm.layout entry.1).large = false → (kmm.slab entry.2).freeBuffers =
    (kmm.freeMems entry).map (kmm.layout entry.1).smallCtl

structure LaidOut (kmm : Kmm) (view : KmmView) : Prop where
  slab : ∀ entry ∈ view.slabs, kmm.SlabLaidOut view.held entry
  /-- An object that is handed out lies on a slab of its cache. -/
  home : ∀ object ∈ view.held, ∃ slab, (object.1, slab) ∈ view.slabs ∧
    pageOf object.2 = kmm.page (object.1, slab)
  pages : (view.slabs.map kmm.page ++ view.loose).Nodup
  /-- The descriptor of a large slab is an object that is handed out. -/
  descriptor : ∀ entry ∈ view.slabs, (kmm.layout entry.1).large = true →
    (KmmCacheRef.slabs, entry.2) ∈ view.held
  loose : ∀ page ∈ view.loose, ValidPage page
  balance : kmm.obtained.Perm (view.slabs.map kmm.page ++ view.loose ++ kmm.released)

variable {kmm next : Kmm} {view : KmmView} {held : List KmmEntry} {entry : KmmEntry}

theorem onPage_cons_of_eq {ref : KmmCacheRef} {mem page : Nat} {objects : List KmmEntry}
    (same : pageOf mem = page) :
    onPage ((ref, mem) :: objects) page = (ref, mem) :: onPage objects page := by
  simp [onPage, same]

theorem onPage_cons_of_ne {ref : KmmCacheRef} {mem page : Nat} {objects : List KmmEntry}
    (other : pageOf mem ≠ page) :
    onPage ((ref, mem) :: objects) page = onPage objects page := by
  simp [onPage, other]

theorem mem_onPage {object : KmmEntry} {objects : List KmmEntry} {page : Nat} :
    object ∈ onPage objects page ↔ object ∈ objects ∧ pageOf object.2 = page := by
  simp [onPage]

/-- The facts about a slab that `SlabLaidOut` reads are the same in two states. -/
structure SameSlab (kmm next : Kmm) (entry : KmmEntry) : Prop where
  layout : next.layout entry.1 = kmm.layout entry.1
  free : (next.slab entry.2).freeBuffers = (kmm.slab entry.2).freeBuffers
  page : (next.slab entry.2).page = (kmm.slab entry.2).page
  owner : next.owner (kmm.page entry) = kmm.owner (kmm.page entry)

theorem SlabLaidOut.congr (slab : kmm.SlabLaidOut held entry) (same : SameSlab kmm next entry)
    {held' : List KmmEntry}
    (objects : (onPage held' (kmm.page entry)).Perm (onPage held (kmm.page entry))) :
    next.SlabLaidOut held' entry := by
  obtain ⟨sound, valid, owned, place, ⟨start, fits, buffers⟩, ctls⟩ := slab
  have page : next.page entry = kmm.page entry := same.page
  have mems : next.freeMems entry = kmm.freeMems entry := by
    unfold freeMems
    rw [same.layout, same.free]
  constructor
  · exact same.layout ▸ sound
  · exact page ▸ valid
  · rw [page, same.owner, owned]
  · rw [same.layout, page]
    exact place
  · rw [same.layout, page, mems]
    exact ⟨start, fits, (objects.append_left _).trans buffers⟩
  · rw [same.layout, mems, same.free]
    exact ctls

theorem LaidOut.slabs_nodup (ok : kmm.LaidOut view) : view.slabs.Nodup :=
  (List.nodup_append.mp ok.pages).1.of_map

/-- Two slabs do not share a page. -/
theorem LaidOut.eq_of_page (ok : kmm.LaidOut view) {other : KmmEntry} (member : entry ∈ view.slabs)
    (otherMember : other ∈ view.slabs) (same : kmm.page entry = kmm.page other) : entry = other :=
  List.inj_on_of_nodup_map (List.nodup_append.mp ok.pages).1 member otherMember same

/-- Two caches do not share a slab. -/
theorem LaidOut.eq_of_address (ok : kmm.LaidOut view) {other : KmmEntry}
    (member : entry ∈ view.slabs) (otherMember : other ∈ view.slabs)
    (same : entry.2 = other.2) : entry = other :=
  ok.eq_of_page member otherMember (congrArg (fun slab => (kmm.slab slab).page) same)

theorem LaidOut.erase_ne (ok : kmm.LaidOut view) {other : KmmEntry} (member : entry ∈ view.slabs)
    (otherMember : other ∈ view.slabs.erase entry) : other.2 ≠ entry.2 := by
  intro same
  obtain ⟨different, isSlab⟩ := ok.slabs_nodup.mem_erase_iff.mp otherMember
  exact different (ok.eq_of_address isSlab member same)

/-- Only objects of the cache of a slab lie on its page. -/
theorem LaidOut.fst_of_onPage (ok : kmm.LaidOut view) {object : KmmEntry}
    (member : entry ∈ view.slabs) (lies : object ∈ onPage view.held (kmm.page entry)) :
    object.1 = entry.1 := by
  obtain ⟨isHeld, onIt⟩ := mem_onPage.mp lies
  obtain ⟨slab, isSlab, home⟩ := ok.home object isHeld
  have same : (object.1, slab) = entry := ok.eq_of_page isSlab member (home.symm.trans onIt)
  rw [← same]

theorem SlabLaidOut.placed (slab : kmm.SlabLaidOut held entry) {mem : Nat}
    (member : mem ∈ kmm.freeMems entry ∨ (entry.1, mem) ∈ onPage held (kmm.page entry)) :
    (kmm.layout entry.1).Placed (kmm.page entry) mem := by
  obtain ⟨start, fits, buffers⟩ := slab.buffers
  apply fits.placed slab.sound
  have isBuffer : (entry.1, mem) ∈ ((kmm.layout entry.1).buffers start).map (Prod.mk entry.1) := by
    apply buffers.mem_iff.mp
    rcases member with free | lies
    · exact List.mem_append_left _ (List.mem_map_of_mem free)
    · exact List.mem_append_right _ lies
  obtain ⟨_, isBuffer, same⟩ := List.mem_map.mp isBuffer
  cases same
  exact isBuffer

/-- No buffer is free twice, handed out twice, or both. -/
theorem SlabLaidOut.nodup (slab : kmm.SlabLaidOut held entry) :
    ((kmm.freeMems entry).map (Prod.mk entry.1) ++ onPage held (kmm.page entry)).Nodup := by
  obtain ⟨start, fits, buffers⟩ := slab.buffers
  refine buffers.nodup_iff.mpr ((slab.sound.nodup_buffers start).map fun _ _ same => ?_)
  exact congrArg Prod.snd same

/-- No object is handed out twice. -/
theorem LaidOut.held_nodup (ok : kmm.LaidOut view) : view.held.Nodup := by
  rw [List.nodup_iff_count_le_one]
  intro object
  by_cases member : object ∈ view.held
  · obtain ⟨slab, isSlab, home⟩ := ok.home object member
    have once := ((List.nodup_append.mp (ok.slab _ isSlab).nodup).2.1)
    rw [List.nodup_iff_count_le_one] at once
    have counted := once object
    rwa [onPage, List.count_filter (by simpa using home)] at counted
  · rw [List.count_eq_zero_of_not_mem member]
    exact Nat.zero_le 1

theorem LaidOut.held_ne_zero (ok : kmm.LaidOut view) {object : KmmEntry}
    (member : object ∈ view.held) : object.2 ≠ 0 := by
  obtain ⟨slab, isSlab, home⟩ := ok.home object member
  have laidOut := ok.slab _ isSlab
  have header := (laidOut.placed (.inr (mem_onPage.mpr ⟨member, home⟩))).header
  have positive := laidOut.valid.positive
  dsimp only at header
  omega

/-- A state in which the slabs are as before, the loose pages perhaps other ones. -/
theorem LaidOut.relaid (ok : kmm.LaidOut view) {loose : List Nat}
    (same : ∀ entry ∈ view.slabs, SameSlab kmm next entry)
    (pages : (view.slabs.map kmm.page ++ loose).Nodup) (valid : ∀ page ∈ loose, ValidPage page)
    (balance : next.obtained.Perm (view.slabs.map kmm.page ++ loose ++ next.released)) :
    next.LaidOut { view with loose := loose } := by
  have samePages : view.slabs.map next.page = view.slabs.map kmm.page :=
    List.map_congr_left fun entry member => (same entry member).page
  rw [← samePages] at pages balance
  refine ⟨fun entry member => ?_, fun object member => ?_, pages, fun entry member => ?_, valid,
    balance⟩
  · exact (ok.slab entry member).congr (same entry member) (List.Perm.refl _)
  · obtain ⟨slab, isSlab, home⟩ := ok.home object member
    exact ⟨slab, isSlab, home.trans (same _ isSlab).page.symm⟩
  · rw [(same entry member).layout]
    exact ok.descriptor entry member

/-- A state in which the slabs, the pages and the balance are as before. -/
theorem LaidOut.congr (ok : kmm.LaidOut view) (same : ∀ entry ∈ view.slabs, SameSlab kmm next entry)
    (obtained : next.obtained = kmm.obtained) (released : next.released = kmm.released) :
    next.LaidOut view := by
  refine ok.relaid same ok.pages ok.loose ?_
  rw [obtained, released]
  exact ok.balance

/-- At most the free buffers and the counter of one slab are different, the lists of
the caches aside. -/
structure ChangesSlab (kmm next : Kmm) (slab : Nat) : Prop where
  layout : ∀ ref, next.layout ref = kmm.layout ref
  page : (next.slab slab).page = (kmm.slab slab).page
  slabs : ∀ other ≠ slab, next.slab other = kmm.slab other
  owner : next.owner = kmm.owner
  obtained : next.obtained = kmm.obtained
  released : next.released = kmm.released

theorem ChangesSlab.same {slab : Nat} (changes : ChangesSlab kmm next slab)
    (different : entry.2 ≠ slab) : SameSlab kmm next entry := by
  have record := changes.slabs _ different
  exact ⟨changes.layout _, congrArg KmmSlab.freeBuffers record, congrArg KmmSlab.page record,
    congrFun changes.owner _⟩

/-- Buffers of a slab become free or are handed out. -/
theorem SlabLaidOut.move {objects : List KmmEntry} (slab : kmm.SlabLaidOut held entry)
    (changes : ChangesSlab kmm next entry.2)
    (moved : ((next.freeMems entry).map (Prod.mk entry.1) ++ onPage objects (kmm.page entry)).Perm
      ((kmm.freeMems entry).map (Prod.mk entry.1) ++ onPage held (kmm.page entry)))
    (ctls : (kmm.layout entry.1).large = false → (next.slab entry.2).freeBuffers =
      (next.freeMems entry).map (kmm.layout entry.1).smallCtl) :
    next.SlabLaidOut objects entry := by
  have layout := changes.layout entry.1
  have page : next.page entry = kmm.page entry := changes.page
  obtain ⟨sound, valid, owned, place, ⟨start, fits, buffers⟩, -⟩ := slab
  constructor
  · exact layout ▸ sound
  · exact page ▸ valid
  · rw [page, changes.owner, owned]
  · rw [layout, page]
    exact place
  · rw [layout, page]
    exact ⟨start, fits, moved.trans buffers⟩
  · rw [layout]
    exact ctls

/-- One slab and the objects on its page change. -/
theorem LaidOut.update (ok : kmm.LaidOut view) (member : entry ∈ view.slabs)
    (slab : next.SlabLaidOut held entry)
    (home : ∀ object ∈ held, object ∈ view.held ∨
      object.1 = entry.1 ∧ pageOf object.2 = kmm.page entry)
    (others : ∀ page ≠ kmm.page entry, (onPage held page).Perm (onPage view.held page))
    (descriptor : ∀ other ∈ view.slabs, (kmm.layout other.1).large = true →
      (KmmCacheRef.slabs, other.2) ∈ held)
    (changes : ChangesSlab kmm next entry.2) :
    next.LaidOut { view with held := held } := by
  have same (other : KmmEntry) (isSlab : other ∈ view.slabs) (different : other ≠ entry) :
      SameSlab kmm next other :=
    changes.same fun address => different (ok.eq_of_address isSlab member address)
  have samePage (other : KmmEntry) (isSlab : other ∈ view.slabs) :
      next.page other = kmm.page other := by
    by_cases self : other = entry
    · rw [self]
      exact changes.page
    · exact (same other isSlab self).page
  have pages : view.slabs.map next.page = view.slabs.map kmm.page :=
    List.map_congr_left samePage
  constructor
  · intro other isSlab
    by_cases self : other = entry
    · exact self ▸ slab
    · refine (ok.slab other isSlab).congr (same other isSlab self) (others _ fun samePages => ?_)
      exact self (ok.eq_of_page isSlab member samePages)
  · intro object isHeld
    rcases home object isHeld with before | ⟨cache, lies⟩
    · obtain ⟨slab, isSlab, home⟩ := ok.home object before
      exact ⟨slab, isSlab, home.trans (samePage _ isSlab).symm⟩
    · refine ⟨entry.2, ?_, ?_⟩
      · rw [cache]
        exact member
      · rw [cache, samePage _ member]
        exact lies
  · show (view.slabs.map next.page ++ view.loose).Nodup
    rw [pages]
    exact ok.pages
  · intro other isSlab
    rw [changes.layout]
    exact descriptor other isSlab
  · exact ok.loose
  · show next.obtained.Perm (view.slabs.map next.page ++ view.loose ++ next.released)
    rw [pages, changes.obtained, changes.released]
    exact ok.balance

/-- The first free buffer of a slab is handed out. -/
theorem LaidOut.take (ok : kmm.LaidOut view) (member : entry ∈ view.slabs) {ctl : Bufctl}
    {rest : List Bufctl} (free : (kmm.slab entry.2).freeBuffers = ctl :: rest)
    {mem : Nat} (isMem : mem = bufctlMem ctl (kmm.layout entry.1))
    (changes : ChangesSlab kmm next entry.2) (nextFree : (next.slab entry.2).freeBuffers = rest) :
    next.LaidOut { view with held := (entry.1, mem) :: view.held } := by
  have slab := ok.slab entry member
  have layout := changes.layout entry.1
  have mems : kmm.freeMems entry = mem :: next.freeMems entry := by
    unfold freeMems
    rw [free, nextFree, layout, isMem, List.map_cons]
  have lies : pageOf mem = kmm.page entry :=
    (slab.placed (.inl (mems ▸ List.mem_cons_self ..))).pageOf slab.sound slab.valid.aligned
  refine ok.update member ?_ ?_ ?_ ?_ changes
  · refine slab.move changes ?_ fun small => ?_
    · rw [onPage_cons_of_eq lies, mems]
      exact List.perm_middle
    · have all := slab.ctls small
      rw [free, mems, List.map_cons] at all
      rw [nextFree]
      exact (List.cons.inj all).2
  · intro object isHeld
    rcases List.mem_cons.mp isHeld with rfl | before
    · exact .inr ⟨rfl, lies⟩
    · exact .inl before
  · intro other different
    rw [onPage_cons_of_ne (by rw [lies]; exact different.symm)]
  · intro other isSlab isLarge
    exact List.mem_cons_of_mem _ (ok.descriptor other isSlab isLarge)

/-- An object that was handed out becomes the first free buffer of its slab. -/
theorem LaidOut.give (ok : kmm.LaidOut view) (member : entry ∈ view.slabs) (ctl : Bufctl)
    {mem : Nat} (isMem : mem = bufctlMem ctl (kmm.layout entry.1))
    (isCtl : (kmm.layout entry.1).large = false → ctl = (kmm.layout entry.1).smallCtl mem)
    (objects : view.held.Perm ((entry.1, mem) :: held))
    (lies : pageOf mem = kmm.page entry)
    (unused : ∀ other ∈ view.slabs, (kmm.layout other.1).large = true →
      (KmmCacheRef.slabs, other.2) ≠ (entry.1, mem))
    (changes : ChangesSlab kmm next entry.2)
    (nextFree : (next.slab entry.2).freeBuffers = ctl :: (kmm.slab entry.2).freeBuffers) :
    next.LaidOut { view with held := held } := by
  have slab := ok.slab entry member
  have layout := changes.layout entry.1
  have mems : next.freeMems entry = mem :: kmm.freeMems entry := by
    unfold freeMems
    rw [nextFree, layout, isMem, List.map_cons]
  have filtered (page : Nat) : (onPage view.held page).Perm
      (onPage ((entry.1, mem) :: held) page) := objects.filter _
  refine ok.update member ?_ ?_ ?_ ?_ changes
  · refine slab.move changes ?_ fun small => ?_
    · have here := filtered (kmm.page entry)
      rw [onPage_cons_of_eq lies] at here
      rw [mems, List.map_cons, List.cons_append]
      exact List.perm_middle.symm.trans (here.symm.append_left _)
    · rw [nextFree, mems, List.map_cons, ← slab.ctls small, isCtl small]
  · intro object isHeld
    exact .inl (objects.mem_iff.mpr (List.mem_cons_of_mem _ isHeld))
  · intro other different
    have there := filtered other
    rw [onPage_cons_of_ne (by rw [lies]; exact different.symm)] at there
    exact there.symm
  · intro other isSlab isLarge
    exact (List.mem_cons.mp (objects.mem_iff.mp (ok.descriptor other isSlab isLarge))).resolve_left
      (unused other isSlab isLarge)

/-- `ALLOC_PAGE_FN` returns a page. -/
theorem LaidOut.obtain (ok : kmm.LaidOut view) {page : Nat} (valid : ValidPage page)
    (fresh : page ∉ view.slabs.map kmm.page ++ view.loose)
    (same : ∀ entry ∈ view.slabs, SameSlab kmm next entry)
    (obtained : next.obtained = page :: kmm.obtained) (released : next.released = kmm.released) :
    next.LaidOut { view with loose := page :: view.loose } := by
  refine ok.relaid same ?_ (fun other member => ?_) ?_
  · rw [List.nodup_middle]
    exact List.nodup_cons.mpr ⟨fresh, ok.pages⟩
  · rcases List.mem_cons.mp member with rfl | before
    · exact valid
    · exact ok.loose other before
  · rw [obtained, released]
    exact (ok.balance.cons page).trans (List.perm_middle.symm.append_right _)

/-- No object lies on a loose page. -/
theorem LaidOut.onPage_loose (ok : kmm.LaidOut view) {page : Nat} (member : page ∈ view.loose) :
    onPage view.held page = [] := by
  rw [List.eq_nil_iff_forall_not_mem]
  intro object lies
  obtain ⟨isHeld, onIt⟩ := mem_onPage.mp lies
  obtain ⟨slab, isSlab, home⟩ := ok.home object isHeld
  refine (List.nodup_append.mp ok.pages).2.2 (kmm.page (object.1, slab))
    (List.mem_map_of_mem isSlab) page member ?_
  rw [← home, onIt]

/-- A slab is made of the last loose page. -/
theorem LaidOut.addSlab (ok : kmm.LaidOut view) {page : Nat} {loose : List Nat}
    (isLoose : view.loose = page :: loose) (slab : next.SlabLaidOut view.held entry)
    (isPage : next.page entry = page)
    (descriptor : (next.layout entry.1).large = true → (KmmCacheRef.slabs, entry.2) ∈ view.held)
    (same : ∀ other ∈ view.slabs, SameSlab kmm next other)
    (obtained : next.obtained = kmm.obtained) (released : next.released = kmm.released) :
    next.LaidOut { view with slabs := entry :: view.slabs, loose := loose } := by
  have pages : view.slabs.map next.page = view.slabs.map kmm.page :=
    List.map_congr_left fun other member => (same other member).page
  have pagesOk := ok.pages
  have balance := ok.balance
  rw [isLoose] at pagesOk balance
  constructor
  · intro other member
    rcases List.mem_cons.mp member with rfl | before
    · exact slab
    · exact (ok.slab other before).congr (same other before) (List.Perm.refl _)
  · intro object member
    obtain ⟨slab, isSlab, home⟩ := ok.home object member
    exact ⟨slab, List.mem_cons_of_mem _ isSlab, home.trans (same _ isSlab).page.symm⟩
  · show ((entry :: view.slabs).map next.page ++ loose).Nodup
    rw [List.map_cons, pages, isPage, List.cons_append]
    exact List.nodup_middle.mp pagesOk
  · intro other member
    rcases List.mem_cons.mp member with rfl | before
    · exact descriptor
    · rw [(same other before).layout]
      exact ok.descriptor other before
  · intro other member
    exact ok.loose other (isLoose ▸ List.mem_cons_of_mem _ member)
  · show next.obtained.Perm ((entry :: view.slabs).map next.page ++ loose ++ next.released)
    rw [List.map_cons, pages, isPage, List.cons_append, obtained, released]
    exact balance.trans (List.perm_middle.append_right _)

/-- A slab with no object that is handed out is taken apart. -/
theorem LaidOut.removeSlab (ok : kmm.LaidOut view) {slabs : List KmmEntry}
    (isSlab : view.slabs.Perm (entry :: slabs)) (unused : onPage view.held (kmm.page entry) = []) :
    kmm.LaidOut { view with slabs := slabs, loose := kmm.page entry :: view.loose } := by
  have pages : (view.slabs.map kmm.page ++ view.loose).Perm
      (slabs.map kmm.page ++ kmm.page entry :: view.loose) :=
    ((isSlab.map kmm.page).append_right _).trans List.perm_middle.symm
  have member (other : KmmEntry) (isOther : other ∈ slabs) : other ∈ view.slabs :=
    isSlab.mem_iff.mpr (List.mem_cons_of_mem _ isOther)
  have entryMember : entry ∈ view.slabs := isSlab.mem_iff.mpr (List.mem_cons_self ..)
  constructor
  · intro other isOther
    exact ok.slab other (member other isOther)
  · intro object isHeld
    obtain ⟨slab, isHome, home⟩ := ok.home object isHeld
    refine ⟨slab, ?_, home⟩
    rcases List.mem_cons.mp (isSlab.mem_iff.mp isHome) with same | rest
    · have lies : object ∈ onPage view.held (kmm.page entry) := mem_onPage.mpr ⟨isHeld, same ▸ home⟩
      rw [unused] at lies
      cases lies
    · exact rest
  · exact pages.nodup_iff.mp ok.pages
  · intro other isOther
    exact ok.descriptor other (member other isOther)
  · intro page isPage
    rcases List.mem_cons.mp isPage with rfl | before
    · exact (ok.slab entry entryMember).valid
    · exact ok.loose page before
  · exact ok.balance.trans (pages.append_right _)

/-- `FREE_PAGE_FN` gets a loose page. -/
theorem LaidOut.release (ok : kmm.LaidOut view) {page : Nat} {loose : List Nat}
    (isLoose : view.loose = page :: loose) (same : ∀ entry ∈ view.slabs, SameSlab kmm next entry)
    (obtained : next.obtained = kmm.obtained) (released : next.released = page :: kmm.released) :
    next.LaidOut { view with loose := loose } := by
  have pages := ok.pages
  have balance := ok.balance
  rw [isLoose] at pages balance
  refine ok.relaid same ?_ (fun other member => ?_) ?_
  · exact (List.nodup_cons.mp (List.nodup_middle.mp pages)).2
  · exact ok.loose other (isLoose ▸ List.mem_cons_of_mem _ member)
  · rw [obtained, released]
    refine balance.trans (List.Perm.trans ?_ List.perm_middle.symm)
    exact List.perm_middle.append_right _

/-- The order of a view does not matter. -/
theorem LaidOut.perm (ok : kmm.LaidOut view) {slabs held : List KmmEntry}
    (sameSlabs : view.slabs.Perm slabs) (sameHeld : view.held.Perm held) :
    kmm.LaidOut { view with slabs := slabs, held := held } := by
  have pages := (sameSlabs.map kmm.page).append_right view.loose
  constructor
  · intro entry member
    exact (ok.slab entry (sameSlabs.mem_iff.mpr member)).congr ⟨rfl, rfl, rfl, rfl⟩
      (sameHeld.symm.filter _)
  · intro object member
    obtain ⟨slab, isSlab, home⟩ := ok.home object (sameHeld.mem_iff.mpr member)
    exact ⟨slab, sameSlabs.mem_iff.mp isSlab, home⟩
  · exact pages.nodup_iff.mp ok.pages
  · intro entry member large
    exact sameHeld.mem_iff.mp (ok.descriptor entry (sameSlabs.mem_iff.mpr member) large)
  · exact ok.loose
  · exact ok.balance.trans (pages.append_right _)

/-- The address of a small slab on a page that is on no slab is not in use. -/
theorem LaidOut.ne_newSlab (ok : kmm.LaidOut view) {page : Nat} (valid : ValidPage page)
    (fresh : page ∉ view.slabs.map kmm.page) (member : entry ∈ view.slabs) :
    entry.2 ≠ page + sizeofPage := by
  intro same
  apply fresh
  rw [List.mem_map]
  cases large : (kmm.layout entry.1).large with
  | false =>
      refine ⟨entry, member, ?_⟩
      exact Nat.add_right_cancel (((ok.slab entry member).place large).symm.trans same)
  | true =>
      obtain ⟨slab, isSlab, home⟩ := ok.home _ (ok.descriptor entry member large)
      refine ⟨_, isSlab, home.symm.trans ?_⟩
      show pageOf entry.2 = page
      rw [same]
      exact pageOf_eq valid.aligned (Nat.le_add_right ..) (Nat.add_lt_add_left (by decide) _)

/-- A descriptor that was just handed out is not the address of a slab. -/
theorem LaidOut.ne_descriptor (ok : kmm.LaidOut view) {slab : Nat}
    (isHeld : (KmmCacheRef.slabs, slab) ∈ view.held)
    (small : (kmm.layout .slabs).large = false)
    (unused : ∀ other ∈ view.slabs, (kmm.layout other.1).large = true → other.2 ≠ slab)
    (member : entry ∈ view.slabs) : entry.2 ≠ slab := by
  cases large : (kmm.layout entry.1).large with
  | true => exact unused entry member large
  | false =>
      rintro rfl
      obtain ⟨home, isHome, lies⟩ := ok.home _ isHeld
      have place := (ok.slab entry member).place large
      have samePage : kmm.page entry = kmm.page (KmmCacheRef.slabs, home) := by
        rw [← lies]
        exact (pageOf_eq (ok.slab entry member).valid.aligned (by omega)
          (by rw [place]; exact Nat.add_lt_add_left (by decide) _)).symm
      have placed := (ok.slab _ isHome).placed (.inr (mem_onPage.mpr ⟨isHeld, lies⟩))
      have header := placed.header
      unfold KmmCacheLayout.header at header
      rw [small, ← samePage] at header
      have sizes : sizeofPage + sizeofKmmSlab = 20 ∧ sizeofPage = 4 := ⟨rfl, rfl⟩
      simp only [Bool.false_eq_true, if_false] at header
      omega

end Kmm

end Yaeos
