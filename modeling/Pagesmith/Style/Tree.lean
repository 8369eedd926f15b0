/-!
# Property trees

A rule body is an ordered list of entries, each a literal `key: value` or a nested block.  Writing a
key that exists keeps its position; a new key goes to the end.

* `Tree.put`: the one write operation; `Tree.get?`, `Tree.child?`, `Tree.has` and `Tree.keys` read.
* `Tree.merge`: a deep merge that never overwrites what the left tree defines.
-/

namespace Pagesmith.Style

inductive Entry where
  | literal (key value : String)
  | block (key : String) (entries : List Entry)
  deriving Repr, Inhabited

/-- A property tree: its entries in the order of their first insertion. -/
abbrev Tree := List Entry

namespace Entry

def key : Entry → String
  | .literal k _ => k
  | .block k _ => k

def isBlock : Entry → Bool
  | .literal _ _ => false
  | .block _ _ => true

end Entry

namespace Tree

def empty : Tree := []

def keys (t : Tree) : List String := t.map Entry.key

def find? (t : Tree) (k : String) : Option Entry := List.find? (fun e => e.key == k) t

def has (t : Tree) (k : String) : Bool := List.any t (fun e => e.key == k)

def get? (t : Tree) (k : String) : Option String :=
  match find? t k with
  | some (.literal _ v) => some v
  | _ => none

def getD (t : Tree) (k fallback : String) : String := (get? t k).getD fallback

def child? (t : Tree) (k : String) : Option Tree :=
  match find? t k with
  | some (.block _ es) => some es
  | _ => none

/-- The block stored under a key, or the empty tree. -/
def childD (t : Tree) (k : String) : Tree := (child? t k).getD []

/-- Writes an entry: in place of the entry with its key, or at the end. -/
def put (t : Tree) (e : Entry) : Tree :=
  match t with
  | [] => [e]
  | x :: xs => if x.key == e.key then e :: xs else x :: put xs e

def set (t : Tree) (k v : String) : Tree := put t (.literal k v)

def setBlock (t : Tree) (k : String) (es : Tree) : Tree := put t (.block k es)

def putAll (t : Tree) (es : List Entry) : Tree := es.foldl put t

end Tree

mutual

/-- Adds an entry that `t` does not define; a block that both define is merged. -/
def Entry.mergeInto (t : Tree) : Entry → Tree
  | .literal k v => if t.has k then t else t ++ [.literal k v]
  | .block k es =>
    match t.find? k with
    | none => t ++ [.block k es]
    | some (.literal _ _) => t
    | some (.block _ ds) => t.put (.block k (Tree.merge ds es))

/-- The entries of `t`, and after them those of the second tree that `t` does not define.  Where
both hold a block under a key the blocks are merged. -/
def Tree.merge (t : Tree) : List Entry → Tree
  | [] => t
  | e :: es => Tree.merge (Entry.mergeInto t e) es

end

namespace Tree

def at? (t : Tree) : List String → Option Tree
  | [] => some t
  | k :: ks => (child? t k).bind (at? · ks)

/-- The tree with the subtree at a path replaced by its image; a path that does not exist changes
nothing. -/
def modifyAt (f : Tree → Tree) (t : Tree) : List String → Tree
  | [] => f t
  | k :: ks =>
    match child? t k with
    | some c => put t (.block k (modifyAt f c ks))
    | none => t

end Tree

end Pagesmith.Style
