/-
AgentMesh/Mux.lean

The request multiplexer of Go's `net/http`, since Go 1.22.  A pattern is a method
and a sequence of segments, each a literal or a wildcard for one segment; there
are no hosts, no patterns without a method and no wildcards for the rest of a
path here.

`ServeMux` works on the escaped path.  A path that is not clean is redirected.
Otherwise the path is cut at its slashes, each segment is decoded, and the tree
of patterns is walked with the decoded segments: a literal goes before a
wildcard, and a method `HEAD` may be served by a pattern with `GET`.

A handler sees the decoded path.  `find_sound` says what it is: the decoded
segments of a pattern that has the handler, each with a slash before it.
-/
import AgentMesh.Url

namespace Mux

open Url

inductive Segment where
  | literal (text : Bytes)
  | wildcard
  deriving DecidableEq

structure Route (H : Type) where
  method : String
  pattern : List Segment
  handler : H

/-! ### Walking the tree -/

/-- The first segment, decoded, and the rest.  A lone slash is a segment of its own. -/
def firstSegment (path : Bytes) : Bytes × Bytes :=
  if path = ['/'.toUInt8] then (path, [])
  else
    let segment := (path.drop 1).takeWhile (· ≠ '/'.toUInt8)
    ((unescape .pathSegment segment).getD segment, (path.drop 1).dropWhile (· ≠ '/'.toUInt8))

section Walk

variable {H : Type}

/-- What is below a node on the way of a segment. -/
def children (segment : Segment) (patterns : List (List Segment × H)) : List (List Segment × H) :=
  patterns.filterMap fun entry =>
    match entry.1 with
    | [] => none
    | first :: rest => if first = segment then some (rest, entry.2) else none

/-- `matchPath`, in a tree of at most `depth` levels. -/
def matchPath : Nat → List (List Segment × H) → Bytes → Option H
  | _, patterns, [] => patterns.findSome? fun entry => if entry.1 = [] then some entry.2 else none
  | 0, _, _ :: _ => none
  | depth + 1, patterns, c :: path =>
      let (segment, rest) := firstSegment (c :: path)
      match matchPath depth (children (.literal segment) patterns) rest with
      | some h => some h
      | none =>
          if segment = ['/'.toUInt8] then none
          else matchPath depth (children .wildcard patterns) rest

/-- `cleanPath`. -/
def cleanPath (p : Bytes) : Bytes :=
  if p = [] then ['/'.toUInt8]
  else
    let p := if p.head? = some '/'.toUInt8 then p else '/'.toUInt8 :: p
    let np := clean p
    if p.getLast? = some '/'.toUInt8 ∧ np ≠ ['/'.toUInt8] then np ++ ['/'.toUInt8] else np

variable (routes : List (Route H))

/-- The patterns under a method. -/
def patterns (method : String) : List (List Segment × H) :=
  (routes.filter fun route => route.method = method).map fun route => (route.pattern, route.handler)

/-- No pattern is deeper. -/
def depth : Nat := (routes.map fun route => route.pattern.length).foldr max 0

/-- `matchMethodAndPath`. -/
def matchMethodAndPath (method : String) (path : Bytes) : Option H :=
  match matchPath (depth routes) (patterns routes method) path with
  | some h => some h
  | none =>
      if method = "HEAD" then matchPath (depth routes) (patterns routes "GET") path else none

/-- `findHandler`: the handler of a pattern, if the request is neither redirected nor refused. -/
def findHandler (method : String) (u : URL) : Option H :=
  let path := if method = "CONNECT" then u.escapedPath else cleanPath u.escapedPath
  if path ≠ u.escapedPath then none else matchMethodAndPath routes method path

end Walk

/-! ### What a handler sees -/

/-- A path with the segments of a pattern. -/
inductive Instance : List Segment → Bytes → Prop
  | nil : Instance [] []
  | literal {text pattern p} : Instance pattern p →
      Instance (.literal text :: pattern) ('/'.toUInt8 :: (text ++ p))
  | wildcard {value pattern p} : Instance pattern p →
      Instance (.wildcard :: pattern) ('/'.toUInt8 :: (value ++ p))

section Sound

variable {H : Type} {entries : List (List Segment × H)} {h : H} {path p : Bytes} {segment : Segment}

theorem mem_children {entry : List Segment × H} (hmem : entry ∈ children segment entries) :
    (segment :: entry.1, entry.2) ∈ entries := by
  obtain ⟨⟨pattern, h⟩, hentry, hchild⟩ := List.mem_filterMap.mp hmem
  rcases pattern with - | ⟨first, rest⟩
  · cases hchild
  · dsimp only at hchild
    split at hchild
    · rename_i hfirst
      obtain rfl := Option.some.inj hchild
      rwa [← hfirst]
    · cases hchild

/-- Cutting the first segment off an escaped path cuts it off the decoded one. -/
theorem firstSegment_unescape (hroot : ∃ rest, path = '/'.toUInt8 :: rest)
    (hne : path ≠ ['/'.toUInt8]) (hp : unescape .path path = some p) :
    ∃ q, unescape .path (firstSegment path).2 = some q ∧
      p = '/'.toUInt8 :: ((firstSegment path).1 ++ q) ∧
      ((firstSegment path).2 = [] ∨ ∃ rest, (firstSegment path).2 = '/'.toUInt8 :: rest) := by
  obtain ⟨tail, rfl⟩ := hroot
  rw [unescape_cons_of_ne (by decide) (by simp), Option.map_eq_some_iff] at hp
  obtain ⟨p, hp, rfl⟩ := hp
  have hfirst : firstSegment ('/'.toUInt8 :: tail)
      = ((unescape .pathSegment (tail.takeWhile (· ≠ '/'.toUInt8))).getD
          (tail.takeWhile (· ≠ '/'.toUInt8)), tail.dropWhile (· ≠ '/'.toUInt8)) := if_neg hne
  rw [hfirst]
  have hmem : '/'.toUInt8 ∉ tail.takeWhile (· ≠ '/'.toUInt8) := fun hmem => by
    simpa using List.mem_takeWhile_imp hmem
  have hrest : tail.dropWhile (· ≠ '/'.toUInt8) = [] ∨
      ∃ rest, tail.dropWhile (· ≠ '/'.toUInt8) = '/'.toUInt8 :: rest := by
    rcases hdrop : tail.dropWhile (· ≠ '/'.toUInt8) with - | ⟨c, rest⟩
    · exact .inl rfl
    · have hhead := List.head?_dropWhile_not (· ≠ '/'.toUInt8) tail
      rw [hdrop] at hhead
      have hc : c = '/'.toUInt8 := by simpa using hhead
      exact .inr ⟨rest, by rw [hc]⟩
  rw [← List.takeWhile_append_dropWhile (p := (· ≠ '/'.toUInt8)) (l := tail)] at hp
  obtain ⟨segment, rest, hsegment, hrest', rfl⟩ := unescape_split hmem hrest hp
  refine ⟨rest, hrest', ?_, hrest⟩
  rw [hsegment, Option.getD_some]

theorem matchPath_nil {depth : Nat} (h' : matchPath depth entries [] = some h) :
    ([], h) ∈ entries := by
  rw [matchPath.eq_def] at h'
  obtain ⟨⟨pattern, handler⟩, hmem, hentry⟩ := List.exists_of_findSome?_eq_some h'
  dsimp only at hentry
  split at hentry
  · rename_i hpattern
    obtain rfl := Option.some.inj hentry
    rwa [← hpattern]
  · cases hentry

/-- The walk ends at a pattern that the decoded path is an instance of. -/
theorem matchPath_sound {depth : Nat} (hslash : ∀ entry ∈ entries, .literal ['/'.toUInt8] ∉ entry.1)
    (hroot : path = [] ∨ ∃ rest, path = '/'.toUInt8 :: rest) (hp : unescape .path path = some p)
    (h' : matchPath depth entries path = some h) :
    ∃ pattern, (pattern, h) ∈ entries ∧ Instance pattern p := by
  induction depth generalizing entries path p with
  | zero =>
      rcases hroot with rfl | ⟨rest, rfl⟩
      · obtain rfl := Option.some.inj hp
        exact ⟨[], matchPath_nil h', .nil⟩
      · cases h'
  | succ depth ih =>
      rcases hroot with rfl | ⟨tail, rfl⟩
      · obtain rfl := Option.some.inj hp
        exact ⟨[], matchPath_nil h', .nil⟩
      · have hbelow : ∀ segment, ∀ entry ∈ children segment entries,
            .literal ['/'.toUInt8] ∉ entry.1 := fun segment entry hentry hmem =>
          hslash _ (mem_children hentry) (List.mem_cons_of_mem _ hmem)
        simp only [matchPath] at h'
        by_cases hlone : '/'.toUInt8 :: tail = ['/'.toUInt8]
        · -- a lone slash is no literal of a pattern, and no wildcard stands for it
          have hfirst : firstSegment ('/'.toUInt8 :: tail) = ('/'.toUInt8 :: tail, []) := if_pos hlone
          rw [hfirst, hlone] at h'
          split at h'
          · rename_i found hfound
            exact absurd List.mem_cons_self (hslash _ (mem_children (matchPath_nil hfound)))
          · cases h'
        · obtain ⟨q, hq, rfl, hrest⟩ := firstSegment_unescape ⟨tail, rfl⟩ hlone hp
          split at h'
          · rename_i found hfound
            obtain rfl := Option.some.inj h'
            obtain ⟨pattern, hmem, hinstance⟩ := ih (hbelow _) hrest hq hfound
            exact ⟨_, mem_children hmem, .literal hinstance⟩
          · split at h'
            · cases h'
            · obtain ⟨pattern, hmem, hinstance⟩ := ih (hbelow _) hrest hq h'
              exact ⟨_, mem_children hmem, .wildcard hinstance⟩

theorem matchPath_empty (depth : Nat) (path : Bytes) :
    matchPath depth ([] : List (List Segment × H)) path = none := by
  induction depth generalizing path with
  | zero => cases path <;> rfl
  | succ depth ih =>
      rcases path with - | ⟨c, path⟩
      · rfl
      · have hchildren : ∀ segment, children segment ([] : List (List Segment × H)) = [] := fun _ => rfl
        simp only [matchPath, hchildren, ih]
        split <;> rfl

theorem head_cleanPath (p : Bytes) : ∃ rest, cleanPath p = '/'.toUInt8 :: rest := by
  rw [cleanPath]
  split
  · exact ⟨[], rfl⟩
  · dsimp only
    generalize (if p.head? = some '/'.toUInt8 then p else '/'.toUInt8 :: p) = rooted
    split
    · exact ⟨_, rfl⟩
    · exact ⟨_, rfl⟩

variable {routes : List (Route H)} {method : String} {u : URL}

theorem mem_patterns {pattern : List Segment} (hmem : (pattern, h) ∈ patterns routes method) :
    ∃ route ∈ routes, route.method = method ∧ route.pattern = pattern ∧ route.handler = h := by
  obtain ⟨route, hroute, heq⟩ := List.mem_map.mp hmem
  obtain ⟨hroute, hmethod⟩ := List.mem_filter.mp hroute
  obtain ⟨hpattern, hhandler⟩ := Prod.mk.inj heq
  exact ⟨route, hroute, of_decide_eq_true hmethod, hpattern, hhandler⟩

theorem patterns_sound {depth : Nat}
    (hslash : ∀ route ∈ routes, .literal ['/'.toUInt8] ∉ route.pattern)
    (hclean : cleanPath u.escapedPath = u.escapedPath)
    (hmatch : matchPath depth (patterns routes method) u.escapedPath = some h) :
    ∃ route ∈ routes, route.method = method ∧ route.handler = h ∧ Instance route.pattern u.path := by
  obtain ⟨rest, hrest⟩ := head_cleanPath u.escapedPath
  rw [hclean] at hrest
  have hbelow : ∀ entry ∈ patterns routes method, .literal ['/'.toUInt8] ∉ entry.1 := by
    intro entry hentry
    obtain ⟨route, hroute, -, hpattern, -⟩ := mem_patterns hentry
    rw [← hpattern]
    exact hslash route hroute
  obtain ⟨pattern, hmem, hinstance⟩ :=
    matchPath_sound hbelow (.inr ⟨rest, hrest⟩) u.unescape_escapedPath hmatch
  obtain ⟨route, hroute, hmethod, rfl, hhandler⟩ := mem_patterns hmem
  exact ⟨route, hroute, hmethod, hhandler, hinstance⟩

/-- Where a request goes, and what its path is then. -/
theorem findHandler_sound
    (hslash : ∀ route ∈ routes, .literal ['/'.toUInt8] ∉ route.pattern)
    (hconnect : ∀ route ∈ routes, route.method ≠ "CONNECT")
    (hfind : findHandler routes method u = some h) :
    ∃ route ∈ routes, route.handler = h ∧ Instance route.pattern u.path ∧
      (route.method = method ∨ route.method = "GET" ∧ method = "HEAD") := by
  rw [findHandler] at hfind
  by_cases hmethod : method = "CONNECT"
  · -- paths are not cleaned for this method, but no pattern has it
    have hnone : patterns routes "CONNECT" = [] := by
      rw [patterns, List.filter_eq_nil_iff.mpr, List.map_nil]
      intro route hroute
      simpa using hconnect route hroute
    subst hmethod
    simp only [if_true, ne_eq, not_true_eq_false, if_false, matchMethodAndPath, hnone,
      matchPath_empty] at hfind
    rw [if_neg (by decide)] at hfind
    cases hfind
  · simp only [hmethod, if_false] at hfind
    split at hfind
    · cases hfind
    · rename_i hclean
      rw [not_not] at hclean
      rw [hclean, matchMethodAndPath] at hfind
      split at hfind
      · rename_i found hfound
        obtain rfl := Option.some.inj hfind
        obtain ⟨route, hroute, hmethod', hhandler, hinstance⟩ := patterns_sound hslash hclean hfound
        exact ⟨route, hroute, hhandler, hinstance, .inl hmethod'⟩
      · split at hfind
        · rename_i hhead
          obtain ⟨route, hroute, hmethod', hhandler, hinstance⟩ := patterns_sound hslash hclean hfind
          exact ⟨route, hroute, hhandler, hinstance, .inr ⟨hmethod', hhead⟩⟩
        · cases hfind

end Sound

end Mux
