import Flinter.DescriptorProofs
import Flinter.RunProofs

/-! # The socket of an interface

    An `Interface` listens, connects or takes a socket over, and closes it when it
    is asked for another one.  What it opens on the way it has to close when
    something fails behind that, and so it does but in one place; and the file of
    a listening socket is removed with it.

    Next to it there is the rest of the process, which opens and closes
    descriptors as well, and gets those that are accepted. -/

namespace FlinterInterface

open Runs Descriptors

/-- `const char *`, up to the NUL. -/
abbrev Text := List Char

-- ── The code ─────────────────────────────────────────────────────────────────

/-- What can be set of a socket. -/
inductive Setting where
  | reuseAddress
  | nonBlocking
  | closeOnExec
  | keepalive
  | deferAccept
  | nodelay
  | broadcast
  | membership
deriving DecidableEq, Repr

/-- What a descriptor stands for: a socket of the interface with what is set of it,
    or something of the rest of the process. -/
inductive File where
  | socket (set : List Setting)
  | other (n : Nat)
deriving DecidableEq, Repr

inductive Domain where
  | AF_UNSPEC
  | AF_INET
  | AF_INET6
  | AF_UNIX
  | other
deriving DecidableEq, Repr

inductive Kind where
  | SOCK_STREAM
  | SOCK_DGRAM
  | other
deriving DecidableEq, Repr

/-- `Interface::Socket`. -/
structure Socket where
  domain : Domain
  type : Kind
  interface : Option Text
  hostname : Option Text
  port : Nat
  abstract : Option Text
  pathname : Option Text
deriving DecidableEq, Repr

/-- `Interface::Option`. -/
structure Options where
  deferAccept : Bool
  nodelay : Bool
  broadcast : Bool
  multicast : Bool
  closeOnExec : Bool
  reuseAddress : Bool
  nonBlocking : Bool
  keepalive : Bool
deriving DecidableEq, Repr

/-- What `InitializeSocket` sets, in its order. -/
def Options.requested (o : Options) : List Setting :=
  (if o.reuseAddress then [.reuseAddress] else []) ++
  (if o.nonBlocking then [.nonBlocking] else []) ++
  (if o.closeOnExec then [.closeOnExec] else []) ++
  (if o.keepalive then [.keepalive] else []) ++
  (if o.deferAccept then [.deferAccept] else []) ++
  (if o.nodelay then [.nodelay] else []) ++
  (if o.broadcast then [.broadcast] else [])

/-- What `safe_connect` comes to. -/
inductive Connection where
  | connected
  | inProgress
  | failed
deriving DecidableEq, Repr

/-- What the calls of a function come to, `false` when they fail.  `address` is
    `inet_aton`; `here` and `there` are the two uses of `Resolver::Resolve`;
    `peerName` and `myName` are `getpeername` or `getsockname` and
    `LinkagePeer::Set` behind it, and `peerSet` is one that comes alone. -/
structure Answers where
  socket : Bool
  set : Setting → Bool
  address : Bool
  here : Bool
  there : Bool
  bind : Bool
  chmod : Bool
  listen : Bool
  connect : Connection
  accept : Bool
  peerName : Bool
  myName : Bool
  peerSet : Bool
  close : Bool
  unlink : Bool

/-- `_socket` where it is not -1, `_domain` and `_sockname`; the descriptors of the
    process and the files of sockets.  As a ghost record, what the socket was to
    have set, the descriptors that nobody knows any more, and the files that
    could not be removed. -/
structure World where
  socket : Option Nat
  domain : Domain
  sockname : Text
  files : Table File
  paths : List Text
  asked : List Setting
  lost : List Nat
  stuck : List Text

/-- A string that is there and not empty. -/
def given (name : Option Text) : Bool := name.any (· ≠ [])

/-- The `name` of `DoConnectUnix`. -/
def Socket.name (sk : Socket) : Option Text :=
  if given sk.pathname = true then sk.pathname
  else if given sk.abstract = true then sk.abstract
  else none

namespace World

variable (w : World) (a : Answers) (sk : Socket) (o : Options)

/-- `safe_close`. -/
def safeClose (fd : Nat) : World := { w with files := w.files.close fd }

def unlink (name : Text) : World :=
  if a.unlink then { w with paths := w.paths.erase name }
  else { w with stuck := name :: w.stuck }

/-- `Close`. -/
def close : Bool × World :=
  match w.socket with
  | none => (true, w)
  | some fd =>
      let w := if w.sockname ≠ [] then { w.unlink a w.sockname with sockname := [] } else w
      let w := { w with socket := none }.safeClose fd
      if a.close = false then (false, w) else (true, { w with domain := .AF_UNSPEC })

/-- `_socket = s`, and `_domain`. -/
def adopt (s : Nat) (domain : Domain) (asked : List Setting) : World :=
  { w with socket := some s, domain := domain, asked := asked }

/-- `InitializeSocket`. -/
def initializeSocket : Bool := o.requested.all a.set

/-- `CreateSocket`. -/
def createSocket : Option Nat × World :=
  if a.socket = false then (none, w)
  else
    let s := w.files.lowest
    if initializeSocket a o = false then
      (none, { w with files := w.files.put s (some (.socket [])) }.safeClose s)
    else (some s, { w with files := w.files.put s (some (.socket o.requested)) })

/-- `CreateListenSocket`. -/
def createListenSocket : Option Nat × World :=
  match w.createSocket a o with
  | (none, w) => (none, w)
  | (some s, w) =>
      if a.bind = false then (none, w.safeClose s)
      else if sk.type = .SOCK_STREAM ∧ a.listen = false then (none, w.safeClose s)
      else (some s, w)

/-- `GetPeerOrClose`, with whether a place for the peer is given, and one for the
    own name. -/
def getPeerOrClose (s : Nat) (peer me : Bool) : Bool × World :=
  if peer = true ∧ a.peerName = false then (false, w.safeClose s)
  else if me = true ∧ a.myName = false then (false, w.safeClose s)
  else (true, w)

/-- `DoConnectTcp`. -/
def doConnectTcp (peer me : Bool) : Int × World :=
  if given sk.hostname = false ∨ sk.port = 0 then (-1, w)
  else
    match w.createSocket a o with
    | (none, w) => (-1, w)
    | (some s, w) =>
        if given sk.interface = true ∧ (a.here = false ∨ a.bind = false) then (-1, w.safeClose s)
        else if a.there = false then (-1, w.safeClose s)
        else if a.connect = .failed then (-1, w.safeClose s)
        else
          match w.getPeerOrClose a s false me with
          | (false, w) => (-1, w)
          | (true, w) =>
              if peer = true ∧ a.peerSet = false then (-1, w.safeClose s)
              else
                (if a.connect = .connected then 0 else 1, w.adopt s .AF_INET o.requested)

/-- `sizeof(aun.sun_path)`. -/
def kPath : Nat := 108

/-- `DoConnectUnix`.  `none` is `strlen` of no string. -/
def doConnectUnix (peer : Bool) : Option (Int × World) :=
  sk.name.map fun name =>
  if kPath ≤ name.length then (-1, w)
  else
    match w.createSocket a o with
    | (none, w) => (-1, w)
    | (some s, w) =>
        if a.connect ≠ .connected then (-1, w.safeClose s)
        else if peer = true ∧ a.peerSet = false then
          -- it returns, and `s` is open
          (-1, { w with lost := s :: w.lost })
        else (0, w.adopt s .AF_UNIX o.requested)

/-- `Connect`. -/
def connect (peer me : Bool) : Option (Int × World) :=
  if sk.type = .other then some (-1, w)
  else
    match w.close a with
    | (false, w) => some (-1, w)
    | (true, w) =>
        match sk.domain with
        | .AF_INET6 | .AF_INET => some (w.doConnectTcp a sk o peer me)
        | .AF_UNIX => w.doConnectUnix a sk o peer
        | _ => some (-1, w)

/-- The end of `DoListenTcp4` and of `DoListenTcp6`. -/
def listenOn (domain : Domain) (multicast me : Bool) : Bool × World :=
  match w.createListenSocket a sk o with
  | (none, w) => (false, w)
  | (some s, w) =>
      if multicast = true ∧ a.set .membership = false then (false, w.safeClose s)
      else
        let set := if multicast then o.requested ++ [.membership] else o.requested
        let w := { w with files := w.files.put s (some (.socket set)) }
        match w.getPeerOrClose a s false me with
        | (false, w) => (false, w)
        | (true, w) => (true, w.adopt s domain set)

/-- `DoListenTcp4`. -/
def doListenTcp4 (me : Bool) : Bool × World :=
  if sk.type = .SOCK_DGRAM ∧ o.multicast = true then
    if given sk.interface = false ∨ a.address = false then (false, w)
    else if a.there = false then (false, w)
    else w.listenOn a sk o .AF_INET true me
  else if a.here = false then (false, w)
  else w.listenOn a sk o .AF_INET false me

/-- `DoListenTcp6`. -/
def doListenTcp6 (me : Bool) : Bool × World :=
  if a.here = false then (false, w) else w.listenOn a sk o .AF_INET6 false me

/-- `DoListenUnixSocket`. -/
def doListenUnixSocket (pathname : Text) : Bool × World :=
  if kPath ≤ pathname.length then (false, w)
  else
    match w.createSocket a o with
    | (none, w) => (false, w)
    | (some s, w) =>
        if a.bind = false then (false, w.safeClose s)
        else
          let w := { w with paths := pathname :: w.paths }
          if a.chmod = false then (false, (w.safeClose s).unlink a pathname)
          else if a.listen = false then (false, (w.safeClose s).unlink a pathname)
          else (true, { w.adopt s .AF_UNIX o.requested with sockname := pathname })

/-- `DoListenUnixNamespace`.  It copies as many bytes as `unix_abstract` has, but from
    `unix_pathname`, up to its NUL at most: `none` is that there are not so many. -/
def doListenUnixNamespace (abstract : Text) : Option (Bool × World) :=
  if kPath ≤ abstract.length then some (false, w)
  else if (sk.pathname.map (·.length + 1)).getD 0 < abstract.length then none
  else
    match w.createListenSocket a sk o with
    | (none, w) => some (false, w)
    | (some s, w) => some (true, w.adopt s .AF_UNIX o.requested)

/-- `DoListenUnix`. -/
def doListenUnix : Option (Bool × World) :=
  if given sk.pathname = true then some (w.doListenUnixSocket a o (sk.pathname.getD []))
  else if given sk.abstract = true then w.doListenUnixNamespace a sk o (sk.abstract.getD [])
  else some (false, w)

/-- `Listen`. -/
def listen (me : Bool) : Option (Bool × World) :=
  if sk.type = .other then some (false, w)
  else
    match w.close a with
    | (false, w) => some (false, w)
    | (true, w) =>
        match sk.domain with
        | .AF_INET6 => some (w.doListenTcp6 a sk o me)
        | .AF_INET => some (w.doListenTcp4 a sk o me)
        | .AF_UNIX => w.doListenUnix a sk o
        | _ => some (false, w)

/-- `Accept`.  A socket that is accepted is given to the rest of the process. -/
def accept (me : Bool) : Int × World :=
  if w.socket = none then (-1, w)
  else if w.domain = .AF_UNSPEC ∨ w.domain = .other then (-1, w)
  else if a.accept = false then (-1, w)
  else
    let fd := w.files.lowest
    let w := { w with files := w.files.put fd (some (.socket [])) }
    match w.getPeerOrClose a fd true me with
    | (false, w) => (1, w)
    | (true, w) =>
        if initializeSocket a o = false then (1, w.safeClose fd)
        else (0, { w with files := w.files.put fd (some (.other fd)) })

/-- `Accepted`: a descriptor of the rest of the process is taken over. -/
def accepted (fd : Nat) : Bool × World :=
  match w.close a with
  | (false, w) => (false, w)
  | (true, w) =>
      if initializeSocket a o = false then (false, w)
      else
        (true, { w with files := w.files.put fd (some (.socket o.requested)) }.adopt fd .AF_UNSPEC
          o.requested)

end World

-- ── Who owns what ────────────────────────────────────────────────────────────

variable {w w' : World} {a : Answers} {sk : Socket} {o : Options} {fd s n : Nat}
variable {set : List Setting} {domain : Domain} {name : Text}

/-- A socket of the interface. -/
def World.Socketed (w : World) (fd : Nat) : Prop := ∃ set, w.files.get fd = some (.socket set)

/-- The sockets of the interface are its own one, those that `pending` says and
    those that were lost; and the files of sockets are its own one and those that
    could not be removed. -/
structure Owned (w : World) (pending : List Nat) : Prop where
  sockets : ∀ fd, w.Socketed fd ↔ w.socket = some fd ∨ fd ∈ pending ∨ fd ∈ w.lost
  pending : ∀ fd ∈ pending, w.socket ≠ some fd ∧ fd ∉ w.lost
  nodup : w.lost.Nodup
  asked : ∀ fd, w.socket = some fd → fd ∉ w.lost ∧ w.files.get fd = some (.socket w.asked)
  paths : w.paths.Perm ((if w.sockname = [] then [] else [w.sockname]) ++ w.stuck)
  bare : w.socket = none → w.sockname = []

theorem socketed_put {f : Option File} :
    ({ w with files := w.files.put s f } : World).Socketed fd ↔
      if fd = s then ∃ set, f = some (.socket set) else w.Socketed fd := by
  rw [World.Socketed]
  dsimp only
  simp only [Table.get_put]
  split
  · rfl
  · rfl

/-- A descriptor that is no socket of the interface becomes one. -/
theorem Owned.take (h : Owned w []) (hs : ¬w.Socketed s) :
    Owned { w with files := w.files.put s (some (.socket set)) } [s] := by
  have hnot := fun hor => hs ((h.sockets s).mpr hor)
  refine ⟨fun fd => ?_, fun fd hfd => ?_, h.nodup, fun fd hfd => ?_, h.paths, h.bare⟩
  · rw [socketed_put, h.sockets]
    dsimp only
    grind
  · obtain rfl := List.mem_singleton.mp hfd
    exact ⟨fun heq => hnot (.inl heq), fun hmem => hnot (.inr (.inr hmem))⟩
  · have hne : fd ≠ s := by
      rintro rfl
      exact hnot (.inl hfd)
    exact ⟨(h.asked fd hfd).1, (Table.get_put_ne hne).trans (h.asked fd hfd).2⟩

theorem not_socketed_lowest : ¬w.Socketed w.files.lowest := by
  rintro ⟨set, hget⟩
  rw [Table.get_lowest] at hget
  cases hget

theorem Owned.create (h : Owned w []) :
    Owned { w with files := w.files.put w.files.lowest (some (.socket set)) }
      [w.files.lowest] :=
  h.take not_socketed_lowest

/-- It is closed again, or given away. -/
theorem Owned.drop {f : Option File} (h : Owned w [s]) (hf : ∀ set, f ≠ some (.socket set)) :
    Owned { w with files := w.files.put s f } [] := by
  have hs := h.pending s List.mem_cons_self
  refine ⟨fun fd => ?_, fun fd hfd => absurd hfd List.not_mem_nil, h.nodup, fun fd hfd => ?_,
    h.paths, h.bare⟩
  · rw [socketed_put, h.sockets]
    dsimp only
    grind
  · have hne : fd ≠ s := by
      rintro rfl
      exact hs.1 hfd
    exact ⟨(h.asked fd hfd).1, (Table.get_put_ne hne).trans (h.asked fd hfd).2⟩

theorem Owned.safeClose (h : Owned w [s]) : Owned (w.safeClose s) [] :=
  h.drop fun _ heq => nomatch heq

/-- A descriptor of the rest of the process comes or goes. -/
theorem Owned.elsewhere {f : Option File} (h : Owned w []) (hs : ¬w.Socketed s)
    (hf : ∀ set, f ≠ some (.socket set)) : Owned { w with files := w.files.put s f } [] := by
  have hnot := fun hor => hs ((h.sockets s).mpr hor)
  refine ⟨fun fd => ?_, h.pending, h.nodup, fun fd hfd => ?_, h.paths, h.bare⟩
  · rw [socketed_put, h.sockets]
    dsimp only
    grind
  · have hne : fd ≠ s := by
      rintro rfl
      exact hnot (.inl hfd)
    exact ⟨(h.asked fd hfd).1, (Table.get_put_ne hne).trans (h.asked fd hfd).2⟩

/-- More is set of it. -/
theorem Owned.put (h : Owned w [s]) :
    Owned { w with files := w.files.put s (some (.socket set)) } [s] := by
  have hs := h.pending s List.mem_cons_self
  refine ⟨fun fd => ?_, h.pending, h.nodup, fun fd hfd => ?_, h.paths, h.bare⟩
  · rw [socketed_put, h.sockets]
    dsimp only
    grind
  · have hne : fd ≠ s := by
      rintro rfl
      exact hs.1 hfd
    exact ⟨(h.asked fd hfd).1, (Table.get_put_ne hne).trans (h.asked fd hfd).2⟩

/-- It becomes the socket of the interface. -/
theorem Owned.adopt (h : Owned w [s]) (hnone : w.socket = none)
    (hget : w.files.get s = some (.socket set)) : Owned (w.adopt s domain set) [] := by
  have hs := h.pending s List.mem_cons_self
  refine ⟨fun fd => ?_, fun fd hfd => absurd hfd List.not_mem_nil, h.nodup, fun fd hfd => ?_,
    h.paths, fun heq => nomatch heq⟩
  · refine (h.sockets fd).trans ?_
    rw [hnone]
    show _ ↔ some s = some fd ∨ fd ∈ [] ∨ fd ∈ w.lost
    grind
  · cases hfd
    exact ⟨hs.2, hget⟩

/-- It is lost. -/
theorem Owned.lose (h : Owned w [s]) : Owned { w with lost := s :: w.lost } [] := by
  have hs := h.pending s List.mem_cons_self
  refine ⟨fun fd => ?_, fun fd hfd => absurd hfd List.not_mem_nil,
    List.nodup_cons.mpr ⟨hs.2, h.nodup⟩, fun fd hfd => ?_, h.paths, h.bare⟩
  · refine (h.sockets fd).trans ?_
    dsimp only
    grind
  · refine ⟨fun hmem => ?_, (h.asked fd hfd).2⟩
    rcases List.mem_cons.mp hmem with rfl | hmem
    · exact hs.1 hfd
    · exact (h.asked fd hfd).1 hmem

/-- A file that was bound is removed again, or cannot be. -/
theorem Owned.unlink (h : Owned w []) (hname : w.sockname = []) :
    Owned ({ w with paths := name :: w.paths }.unlink a name) [] := by
  have hpaths := h.paths
  rw [if_pos hname, List.nil_append] at hpaths
  rw [World.unlink]
  split
  · refine ⟨h.sockets, h.pending, h.nodup, h.asked, ?_, h.bare⟩
    dsimp only
    rw [List.erase_cons_head, if_pos hname, List.nil_append]
    exact hpaths
  · refine ⟨h.sockets, h.pending, h.nodup, h.asked, ?_, h.bare⟩
    dsimp only
    rw [if_pos hname, List.nil_append]
    exact hpaths.cons name

/-- `Close` up to where it closes. -/
theorem Owned.unbind (h : Owned w []) (hname : w.sockname ≠ []) :
    Owned { w.unlink a w.sockname with sockname := [] } [] := by
  have hpaths := h.paths
  rw [if_neg hname, List.singleton_append] at hpaths
  rw [World.unlink]
  split
  · refine ⟨h.sockets, h.pending, h.nodup, h.asked, ?_, fun _ => rfl⟩
    have herased := hpaths.erase w.sockname
    rw [List.erase_cons_head] at herased
    dsimp only
    rw [if_pos rfl, List.nil_append]
    exact herased
  · refine ⟨h.sockets, h.pending, h.nodup, h.asked, ?_, fun _ => rfl⟩
    dsimp only
    rw [if_pos rfl, List.nil_append]
    exact hpaths

/-- The socket is closed. -/
theorem Owned.release (h : Owned w []) (hfd : w.socket = some fd) (hname : w.sockname = []) :
    Owned ({ w with socket := none }.safeClose fd) [] := by
  have hlost := (h.asked fd hfd).1
  refine ⟨fun fd' => ?_, fun _ hmem => absurd hmem List.not_mem_nil, h.nodup,
    fun _ heq => (nomatch heq), h.paths, fun _ => hname⟩
  refine socketed_put.trans ?_
  show (if fd' = fd then _ else w.Socketed fd') ↔ none = some fd' ∨ fd' ∈ [] ∨ fd' ∈ w.lost
  rw [h.sockets]
  grind

/-- `_domain` is of no account. -/
theorem Owned.forget (h : Owned w []) : Owned { w with domain } [] :=
  ⟨h.sockets, h.pending, h.nodup, h.asked, h.paths, h.bare⟩

theorem unlink_socket : (w.unlink a name).socket = w.socket := by
  rw [World.unlink]
  split
  · rfl
  · rfl

theorem unlink_sockname : (w.unlink a name).sockname = w.sockname := by
  rw [World.unlink]
  split
  · rfl
  · rfl

theorem unlink_lost : (w.unlink a name).lost = w.lost := by
  rw [World.unlink]
  split
  · rfl
  · rfl

/-- `Close` leaves nothing behind but what cannot be removed. -/
theorem Owned.close (a : Answers) (h : Owned w []) :
    Owned (w.close a).2 [] ∧ (w.close a).2.socket = none := by
  rw [World.close]
  split
  next hnone => exact ⟨h, hnone⟩
  next fd hfd =>
  have hreleased : Owned ({ (if w.sockname ≠ [] then { w.unlink a w.sockname with sockname := [] }
      else w) with socket := none }.safeClose fd) [] := by
    split
    next hname => exact (h.unbind hname).release (unlink_socket.trans hfd) rfl
    next hname => exact h.release hfd (not_not.mp hname)
  dsimp only
  split
  · exact ⟨hreleased, rfl⟩
  · exact ⟨hreleased.forget, rfl⟩

/-- What a call leaves as it was. -/
structure Kept (w w' : World) : Prop where
  socket : w'.socket = w.socket
  sockname : w'.sockname = w.sockname
  lost : w'.lost = w.lost

theorem Kept.trans {w₂ : World} (h : Kept w w') (h' : Kept w' w₂) : Kept w w₂ :=
  ⟨h'.socket.trans h.socket, h'.sockname.trans h.sockname, h'.lost.trans h.lost⟩

theorem Kept.safeClose (h : Kept w w') : Kept w (w'.safeClose s) :=
  ⟨h.socket, h.sockname, h.lost⟩

/-- Whether `CreateSocket` makes a socket. -/
def opens (a : Answers) (o : Options) : Bool := a.socket && World.initializeSocket a o

theorem createSocket_cases (a : Answers) (o : Options) (h : Owned w []) :
    (opens a o = false ∧ ∃ w', w.createSocket a o = (none, w') ∧ Owned w' [] ∧ Kept w w') ∨
    (opens a o = true ∧ ∃ s w', w.createSocket a o = (some s, w') ∧ Owned w' [s] ∧ Kept w w' ∧
      w'.files.get s = some (.socket o.requested)) := by
  rw [World.createSocket, opens]
  cases hsocket : a.socket with
  | false => exact .inl ⟨rfl, w, rfl, h, rfl, rfl, rfl⟩
  | true =>
      cases hset : World.initializeSocket a o with
      | false => exact .inl ⟨rfl, _, rfl, h.create.safeClose, rfl, rfl, rfl⟩
      | true =>
          exact .inr ⟨rfl, _, _, rfl, h.create, ⟨rfl, rfl, rfl⟩, Table.get_put_self⟩

theorem createListenSocket_cases (a : Answers) (sk : Socket) (o : Options) (h : Owned w []) :
    (∃ w', w.createListenSocket a sk o = (none, w') ∧ Owned w' [] ∧ Kept w w') ∨
    ∃ s w', w.createListenSocket a sk o = (some s, w') ∧ Owned w' [s] ∧ Kept w w' ∧
      w'.files.get s = some (.socket o.requested) := by
  rw [World.createListenSocket]
  rcases createSocket_cases a o h with ⟨-, w', hw, h', hk⟩ | ⟨-, s, w', hw, h', hk, hget⟩
  · rw [hw]
    exact .inl ⟨w', rfl, h', hk⟩
  rw [hw]
  dsimp only
  split
  · exact .inl ⟨_, rfl, h'.safeClose, hk.safeClose⟩
  split
  · exact .inl ⟨_, rfl, h'.safeClose, hk.safeClose⟩
  exact .inr ⟨s, w', rfl, h', hk, hget⟩

theorem getPeerOrClose_cases (a : Answers) (peer me : Bool) (h : Owned w [s]) :
    (∃ w', w.getPeerOrClose a s peer me = (false, w') ∧ Owned w' [] ∧ Kept w w') ∨
      w.getPeerOrClose a s peer me = (true, w) := by
  rw [World.getPeerOrClose]
  split
  · exact .inl ⟨_, rfl, h.safeClose, rfl, rfl, rfl⟩
  split
  · exact .inl ⟨_, rfl, h.safeClose, rfl, rfl, rfl⟩
  exact .inr rfl

/-- What a call leaves that was to open a socket: one if it was successful, and else
    none. -/
structure Done (ok : Prop) (lost : Nat) (w : World) : Prop where
  owned : Owned w []
  socket : ok ↔ w.socket ≠ none
  lost : w.lost.length = lost

section Outcomes

variable {ok : Prop}

theorem Done.failed (h : Owned w' []) (hk : Kept w w') (hnone : w.socket = none) (hok : ¬ok) :
    Done ok w.lost.length w' :=
  ⟨h, ⟨fun hyes => absurd hyes hok, fun hne => absurd (hk.socket.trans hnone) hne⟩,
    congrArg List.length hk.lost⟩

theorem Done.closed (h : Owned w' [s]) (hk : Kept w w') (hnone : w.socket = none) (hok : ¬ok) :
    Done ok w.lost.length (w'.safeClose s) :=
  .failed h.safeClose hk.safeClose hnone hok

theorem Done.adopted (h : Owned w' [s]) (hk : Kept w w') (hnone : w.socket = none)
    (hget : w'.files.get s = some (.socket set)) (hok : ok) :
    Done ok w.lost.length (w'.adopt s domain set) :=
  ⟨h.adopt (hk.socket.trans hnone) hget, ⟨fun _ => nofun, fun _ => hok⟩,
    congrArg List.length hk.lost⟩

end Outcomes

theorem doConnectTcp_done (a : Answers) (sk : Socket) (o : Options) (peer me : Bool)
    (h : Owned w []) (hnone : w.socket = none) :
    Done (0 ≤ (w.doConnectTcp a sk o peer me).1) w.lost.length
      (w.doConnectTcp a sk o peer me).2 := by
  have hfails : ¬(0 : Int) ≤ -1 := by decide
  rw [World.doConnectTcp]
  split
  · exact .failed h ⟨rfl, rfl, rfl⟩ hnone hfails
  rcases createSocket_cases a o h with ⟨-, w', hw, h', hk⟩ | ⟨-, s, w', hw, h', hk, hget⟩
  · rw [hw]
    exact .failed h' hk hnone hfails
  rw [hw]
  dsimp only
  split
  · exact .closed h' hk hnone hfails
  split
  · exact .closed h' hk hnone hfails
  split
  · exact .closed h' hk hnone hfails
  rcases getPeerOrClose_cases a false me h' with ⟨w₂, hw₂, h₂, hk₂⟩ | hw₂
  · rw [hw₂]
    exact .failed h₂ (hk.trans hk₂) hnone hfails
  rw [hw₂]
  dsimp only
  split
  · exact .closed h' hk hnone hfails
  refine .adopted h' hk hnone hget ?_
  split
  · exact Int.le_refl 0
  · exact Int.one_nonneg

/-- Whether `DoConnectUnix` gets to the peer of a socket that is connected, and that
    cannot be put down. -/
def leaks (a : Answers) (o : Options) (name : Text) (peer : Bool) : Bool :=
  decide (name.length < World.kPath) && opens a o && decide (a.connect = .connected) && peer &&
    !a.peerSet

theorem doConnectUnix_done {ret : Int} {name : Text} (a : Answers) (sk : Socket) (o : Options)
    (peer : Bool) (h : Owned w []) (hnone : w.socket = none) (hname : sk.name = some name)
    (hw : w.doConnectUnix a sk o peer = some (ret, w')) :
    Done (0 ≤ ret) (w.lost.length + (leaks a o name peer).toNat) w' := by
  have hfails : ¬(0 : Int) ≤ -1 := by decide
  rw [World.doConnectUnix, hname, Option.map_some, Option.some.injEq] at hw
  rw [leaks]
  split at hw
  next hlong =>
    cases hw
    rw [decide_eq_false (Nat.not_lt.mpr hlong)]
    exact .failed h ⟨rfl, rfl, rfl⟩ hnone hfails
  next hlong =>
  rw [decide_eq_true (Nat.lt_of_not_le hlong), Bool.true_and]
  rcases createSocket_cases a o h with ⟨ho, w₁, hw₁, h', hk⟩ | ⟨ho, s, w₁, hw₁, h', hk, hget⟩
  · rw [hw₁] at hw
    cases hw
    rw [ho]
    exact .failed h' hk hnone hfails
  rw [hw₁] at hw
  rw [ho, Bool.true_and]
  dsimp only at hw
  split at hw
  next hconnect =>
    cases hw
    rw [decide_eq_false hconnect]
    exact .closed h' hk hnone hfails
  next hconnect =>
  rw [decide_eq_true (not_not.mp hconnect), Bool.true_and]
  split at hw
  next hpeer =>
    cases hw
    rw [hpeer.1, hpeer.2]
    refine ⟨h'.lose, ⟨fun hyes => absurd hyes hfails, fun hne => absurd ?_ hne⟩, ?_⟩
    · exact hk.socket.trans hnone
    · exact congrArg (List.length · + 1) hk.lost
  next hpeer =>
    cases hw
    have hno : (peer && !a.peerSet) = false :=
      Bool.eq_false_iff.mpr fun hboth => hpeer (by simpa using hboth)
    rw [hno]
    exact .adopted h' hk hnone hget (Int.le_refl 0)

/-- Whether `Connect` gets there. -/
def World.connectLeaks (w : World) (a : Answers) (sk : Socket) (o : Options) (peer : Bool) :
    Bool :=
  decide (sk.type ≠ .other) && (w.socket.isNone || a.close) && decide (sk.domain = .AF_UNIX) &&
    sk.name.any fun name => leaks a o name peer

theorem close_fst (w : World) (a : Answers) : (w.close a).1 = (w.socket.isNone || a.close) := by
  rw [World.close]
  split
  next hnone => rw [hnone]; rfl
  next fd hfd =>
  rw [hfd]
  dsimp only
  split
  next hclose => rw [hclose]; rfl
  next hclose => rw [Bool.of_not_eq_false hclose]; rfl

theorem close_lost (w : World) (a : Answers) : (w.close a).2.lost = w.lost := by
  rw [World.close]
  split
  · rfl
  · dsimp only
    split
    · split
      · exact unlink_lost
      · rfl
    · split
      · exact unlink_lost
      · rfl

/-- A call that opens a socket comes behind `Close`, unless it refuses before. -/
theorem connect_done {ret : Int} (a : Answers) (sk : Socket) (o : Options) (peer me : Bool)
    (h : Owned w []) (hw : w.connect a sk o peer me = some (ret, w')) :
    Owned w' [] ∧ w'.lost.length = w.lost.length + (w.connectLeaks a sk o peer).toNat ∧
      (sk.type ≠ .other → (0 ≤ ret ↔ w'.socket ≠ none)) := by
  have hfails : ¬(0 : Int) ≤ -1 := by decide
  obtain ⟨hclosed, hnone⟩ := h.close a
  rw [World.connect] at hw
  rw [World.connectLeaks, ← close_fst, ← close_lost w a]
  split at hw
  next htype =>
    cases hw
    rw [htype]
    exact ⟨h, congrArg List.length (close_lost w a).symm, fun hne => absurd rfl hne⟩
  next htype =>
  rw [decide_eq_true htype, Bool.true_and]
  generalize w.close a = c at hw hclosed hnone ⊢
  obtain ⟨_ | _, w₁⟩ := c
  · cases hw
    exact ⟨hclosed, rfl, fun _ => ⟨fun hyes => absurd hyes hfails, fun hne => absurd hnone hne⟩⟩
  rw [Bool.true_and]
  dsimp only at hw hclosed hnone ⊢
  have htcp := doConnectTcp_done a sk o peer me hclosed hnone
  cases hdomain : sk.domain with
  | AF_INET | AF_INET6 =>
      rw [hdomain] at hw
      rw [Option.some.inj hw] at htcp
      exact ⟨htcp.owned, htcp.lost, fun _ => htcp.socket⟩
  | AF_UNIX =>
      rw [hdomain] at hw
      obtain ⟨name, hname, -⟩ := Option.map_eq_some_iff.mp hw
      have hunix := doConnectUnix_done a sk o peer hclosed hnone hname hw
      rw [hname]
      exact ⟨hunix.owned, hunix.lost, fun _ => hunix.socket⟩
  | AF_UNSPEC | other =>
      rw [hdomain] at hw
      cases hw
      exact ⟨hclosed, rfl, fun _ => ⟨fun hyes => absurd hyes hfails, fun hne => absurd hnone hne⟩⟩

theorem listenOn_done (a : Answers) (sk : Socket) (o : Options) (domain : Domain)
    (multicast me : Bool) (h : Owned w []) (hnone : w.socket = none) :
    Done ((w.listenOn a sk o domain multicast me).1 = true) w.lost.length
      (w.listenOn a sk o domain multicast me).2 := by
  rw [World.listenOn]
  rcases createListenSocket_cases a sk o h with ⟨w', hw, h', hk⟩ | ⟨s, w', hw, h', hk, hget⟩
  · rw [hw]
    exact .failed h' hk hnone Bool.false_ne_true
  rw [hw]
  dsimp only
  split
  · exact .closed h' hk hnone Bool.false_ne_true
  have hput : ∀ set, Owned { w' with files := w'.files.put s (some (.socket set)) } [s] :=
    fun set => h'.put
  rcases getPeerOrClose_cases a false me (hput _) with ⟨w₂, hw₂, h₂, hk₂⟩ | hw₂
  · rw [hw₂]
    exact .failed h₂ (hk.trans ⟨hk₂.socket, hk₂.sockname, hk₂.lost⟩) hnone Bool.false_ne_true
  rw [hw₂]
  exact .adopted (hput _) ⟨hk.socket, hk.sockname, hk.lost⟩ hnone Table.get_put_self rfl

theorem doListenTcp4_done (a : Answers) (sk : Socket) (o : Options) (me : Bool)
    (h : Owned w []) (hnone : w.socket = none) :
    Done ((w.doListenTcp4 a sk o me).1 = true) w.lost.length (w.doListenTcp4 a sk o me).2 := by
  have hrefused : Done (false = true) w.lost.length w :=
    .failed h ⟨rfl, rfl, rfl⟩ hnone Bool.false_ne_true
  rw [World.doListenTcp4]
  split
  · split
    · exact hrefused
    split
    · exact hrefused
    exact listenOn_done a sk o .AF_INET true me h hnone
  · split
    · exact hrefused
    exact listenOn_done a sk o .AF_INET false me h hnone

theorem doListenTcp6_done (a : Answers) (sk : Socket) (o : Options) (me : Bool)
    (h : Owned w []) (hnone : w.socket = none) :
    Done ((w.doListenTcp6 a sk o me).1 = true) w.lost.length (w.doListenTcp6 a sk o me).2 := by
  rw [World.doListenTcp6]
  split
  · exact .failed h ⟨rfl, rfl, rfl⟩ hnone Bool.false_ne_true
  · exact listenOn_done a sk o .AF_INET6 false me h hnone

/-- A socket that is bound to a file, and that is not empty, is taken with the file. -/
theorem Owned.bind (h : Owned w [s]) (hnone : w.socket = none) (hname : name ≠ [])
    (hget : w.files.get s = some (.socket set)) :
    Owned { { w with paths := name :: w.paths }.adopt s domain set with sockname := name } [] := by
  have hadopted : Owned (w.adopt s domain set) [] := h.adopt hnone hget
  have hpaths := h.paths
  rw [if_pos (h.bare hnone), List.nil_append] at hpaths
  refine ⟨hadopted.sockets, hadopted.pending, hadopted.nodup, hadopted.asked, ?_, nofun⟩
  dsimp only
  rw [if_neg hname]
  exact hpaths.cons name

theorem doListenUnixSocket_done (a : Answers) (o : Options) (hname : name ≠ [])
    (h : Owned w []) (hnone : w.socket = none) :
    Done ((w.doListenUnixSocket a o name).1 = true) w.lost.length
      (w.doListenUnixSocket a o name).2 := by
  rw [World.doListenUnixSocket]
  split
  · exact .failed h ⟨rfl, rfl, rfl⟩ hnone Bool.false_ne_true
  rcases createSocket_cases a o h with ⟨-, w', hw, h', hk⟩ | ⟨-, s, w', hw, h', hk, hget⟩
  · rw [hw]
    exact .failed h' hk hnone Bool.false_ne_true
  rw [hw]
  dsimp only
  split
  · exact .closed h' hk hnone Bool.false_ne_true
  have hbare : w'.sockname = [] := hk.sockname.trans (h.bare hnone)
  have hundone : Done (false = true) w.lost.length
      (({ w' with paths := name :: w'.paths }.safeClose s).unlink a name) := by
    refine .failed (h'.safeClose.unlink hbare) ⟨?_, ?_, ?_⟩ hnone Bool.false_ne_true
    · exact unlink_socket.trans hk.socket
    · exact unlink_sockname.trans hk.sockname
    · exact unlink_lost.trans hk.lost
  split
  · exact hundone
  split
  · exact hundone
  exact ⟨h'.bind (hk.socket.trans hnone) hname hget, ⟨fun _ => nofun, fun _ => rfl⟩,
    congrArg List.length hk.lost⟩

theorem given_getD {name : Option Text} (h : given name = true) : name.getD [] ≠ [] := by
  cases name with
  | none => cases h
  | some name => exact of_decide_eq_true h

theorem doListenUnixNamespace_done {ret : Bool} (a : Answers) (sk : Socket) (o : Options)
    (h : Owned w []) (hnone : w.socket = none)
    (hw : w.doListenUnixNamespace a sk o name = some (ret, w')) :
    Done (ret = true) w.lost.length w' := by
  rw [World.doListenUnixNamespace] at hw
  split at hw
  · cases hw
    exact .failed h ⟨rfl, rfl, rfl⟩ hnone Bool.false_ne_true
  split at hw
  · cases hw
  rcases createListenSocket_cases a sk o h with ⟨w₁, hw₁, h', hk⟩ | ⟨s, w₁, hw₁, h', hk, hget⟩
  · rw [hw₁] at hw
    cases hw
    exact .failed h' hk hnone Bool.false_ne_true
  · rw [hw₁] at hw
    cases hw
    exact .adopted h' hk hnone hget rfl

theorem doListenUnix_done {ret : Bool} (a : Answers) (sk : Socket) (o : Options)
    (h : Owned w []) (hnone : w.socket = none) (hw : w.doListenUnix a sk o = some (ret, w')) :
    Done (ret = true) w.lost.length w' := by
  rw [World.doListenUnix] at hw
  split at hw
  next hgiven =>
    have hdone := doListenUnixSocket_done a o (given_getD hgiven) h hnone
    rw [Option.some.inj hw] at hdone
    exact hdone
  split at hw
  · exact doListenUnixNamespace_done a sk o h hnone hw
  · cases hw
    exact .failed h ⟨rfl, rfl, rfl⟩ hnone Bool.false_ne_true

/-- `Listen`, the same way. -/
theorem listen_done {ret : Bool} (a : Answers) (sk : Socket) (o : Options) (me : Bool)
    (h : Owned w []) (hw : w.listen a sk o me = some (ret, w')) :
    Owned w' [] ∧ w'.lost.length = w.lost.length ∧
      (sk.type ≠ .other → (ret = true ↔ w'.socket ≠ none)) := by
  obtain ⟨hclosed, hnone⟩ := h.close a
  rw [World.listen] at hw
  rw [← close_lost w a]
  split at hw
  next htype =>
    cases hw
    exact ⟨h, congrArg List.length (close_lost w a).symm, fun hne => absurd htype hne⟩
  generalize w.close a = c at hw hclosed hnone ⊢
  have hrefused : Done (false = true) c.2.lost.length c.2 :=
    .failed hclosed ⟨rfl, rfl, rfl⟩ hnone Bool.false_ne_true
  obtain ⟨_ | _, w₁⟩ := c
  · cases hw
    exact ⟨hclosed, rfl, fun _ => hrefused.socket⟩
  dsimp only at hw hclosed hnone hrefused ⊢
  cases hdomain : sk.domain with
  | AF_INET =>
      have hdone := doListenTcp4_done a sk o me hclosed hnone
      rw [hdomain] at hw
      rw [Option.some.inj hw] at hdone
      exact ⟨hdone.owned, hdone.lost, fun _ => hdone.socket⟩
  | AF_INET6 =>
      have hdone := doListenTcp6_done a sk o me hclosed hnone
      rw [hdomain] at hw
      rw [Option.some.inj hw] at hdone
      exact ⟨hdone.owned, hdone.lost, fun _ => hdone.socket⟩
  | AF_UNIX =>
      rw [hdomain] at hw
      have hdone := doListenUnix_done a sk o hclosed hnone hw
      exact ⟨hdone.owned, hdone.lost, fun _ => hdone.socket⟩
  | AF_UNSPEC | other =>
      rw [hdomain] at hw
      cases hw
      exact ⟨hclosed, rfl, fun _ => hrefused.socket⟩

/-- `Accept` keeps nothing of what it accepts. -/
theorem accept_kept (a : Answers) (o : Options) (me : Bool) (h : Owned w []) :
    Owned (w.accept a o me).2 [] ∧ Kept w (w.accept a o me).2 := by
  rw [World.accept]
  split
  · exact ⟨h, rfl, rfl, rfl⟩
  split
  · exact ⟨h, rfl, rfl, rfl⟩
  split
  · exact ⟨h, rfl, rfl, rfl⟩
  dsimp only
  have hcreated : Owned { w with files := w.files.put w.files.lowest (some (.socket [])) }
      [w.files.lowest] := h.create
  rcases getPeerOrClose_cases a true me hcreated with ⟨w₁, hw₁, h₁, hk₁⟩ | hw₁
  · rw [hw₁]
    exact ⟨h₁, hk₁.socket, hk₁.sockname, hk₁.lost⟩
  rw [hw₁]
  dsimp only
  split
  · exact ⟨hcreated.safeClose, rfl, rfl, rfl⟩
  · exact ⟨hcreated.drop nofun, rfl, rfl, rfl⟩

theorem not_socketed_other (hget : w.files.get fd = some (.other n)) : ¬w.Socketed fd := by
  rintro ⟨set, hsocket⟩
  rw [hget] at hsocket
  cases hsocket

/-- `Accepted` takes over what it is given, or leaves it alone. -/
theorem accepted_kept (a : Answers) (o : Options) (h : Owned w [])
    (hget : w.files.get fd = some (.other n)) :
    Owned (w.accepted a o fd).2 [] ∧ (w.accepted a o fd).2.lost = w.lost := by
  obtain ⟨hclosed, hnone⟩ := h.close a
  have hlost := close_lost w a
  have hfd : ¬(w.close a).2.Socketed fd := by
    rw [hclosed.sockets, hnone, hlost]
    rintro (hor | hor | hor)
    · cases hor
    · cases hor
    · exact not_socketed_other hget ((h.sockets fd).mpr (.inr (.inr hor)))
  rw [World.accepted]
  generalize w.close a = c at hclosed hnone hlost hfd ⊢
  obtain ⟨_ | _, w₁⟩ := c
  · exact ⟨hclosed, hlost⟩
  dsimp only at hclosed hnone hlost hfd ⊢
  split
  · exact ⟨hclosed, hlost⟩
  · exact ⟨(hclosed.take hfd).adopt hnone Table.get_put_self, hlost⟩

-- ── The runs ─────────────────────────────────────────────────────────────────

/-- What is called, with what the calls behind it come to, and what the rest of the
    process opens and closes. -/
inductive Act where
  | connect (a : Answers) (sk : Socket) (o : Options) (peer me : Bool)
  | listen (a : Answers) (sk : Socket) (o : Options) (me : Bool)
  | accept (a : Answers) (o : Options) (me : Bool)
  | accepted (a : Answers) (o : Options) (fd : Nat)
  | close (a : Answers)
  | occupy (n : Nat)
  | vacate (fd : Nat)

def next (w : World) : Act → Option World
  | .connect a sk o peer me => (w.connect a sk o peer me).map (·.2)
  | .listen a sk o me => (w.listen a sk o me).map (·.2)
  | .accept a o me => some (w.accept a o me).2
  | .accepted a o fd =>
      match w.files.get fd with
      | some (.other _) => some (w.accepted a o fd).2
      | _ => none
  | .close a => some (w.close a).2
  | .occupy n => some { w with files := w.files.put w.files.lowest (some (.other n)) }
  | .vacate fd =>
      match w.files.get fd with
      | some (.other _) => some { w with files := w.files.close fd }
      | _ => none

/-- An `Interface` and the process around it. -/
def interface : System World Act where
  init w := (∀ fd, ¬w.Socketed fd) ∧ w.socket = none ∧ w.sockname = [] ∧ w.paths = [] ∧
    w.lost = [] ∧ w.stuck = []
  step w x w' := next w x = some w'

/-- How often `Connect` got to a UNIX peer that could not be put down. -/
def leaked (w : World) (x : Act) (count : Nat) : Nat :=
  match x with
  | .connect a sk o peer _ => count + (w.connectLeaks a sk o peer).toNat
  | _ => count

theorem Owned.next {x : Act} (h : Owned w []) (hw : next w x = some w') :
    Owned w' [] ∧ w'.lost.length = leaked w x w.lost.length := by
  cases x with
  | connect a sk o peer me =>
      obtain ⟨⟨ret, w'⟩, hret, rfl⟩ := Option.map_eq_some_iff.mp hw
      obtain ⟨howned, hlost, -⟩ := connect_done a sk o peer me h hret
      exact ⟨howned, hlost⟩
  | listen a sk o me =>
      obtain ⟨⟨ret, w'⟩, hret, rfl⟩ := Option.map_eq_some_iff.mp hw
      obtain ⟨howned, hlost, -⟩ := listen_done a sk o me h hret
      exact ⟨howned, hlost⟩
  | accept a o me =>
      cases hw
      obtain ⟨howned, hkept⟩ := accept_kept a o me h
      exact ⟨howned, congrArg List.length hkept.lost⟩
  | accepted a o fd =>
      rw [FlinterInterface.next] at hw
      split at hw
      next n hget =>
        cases hw
        obtain ⟨howned, hlost⟩ := accepted_kept a o h hget
        exact ⟨howned, congrArg List.length hlost⟩
      next => cases hw
  | close a =>
      cases hw
      exact ⟨(h.close a).1, congrArg List.length (close_lost w a)⟩
  | occupy n =>
      cases hw
      exact ⟨h.elsewhere not_socketed_lowest nofun, rfl⟩
  | vacate fd =>
      rw [FlinterInterface.next] at hw
      split at hw
      next n hget =>
        cases hw
        exact ⟨h.elsewhere (not_socketed_other hget) nofun, rfl⟩
      next => cases hw

variable {count : Nat}

theorem owned_of_reachable (h : Reachable (interface.record 0 leaked) (w, count)) :
    Owned w [] ∧ w.lost.length = count := by
  refine Reachable.invariant (I := fun s => Owned s.1 [] ∧ s.1.lost.length = s.2) ?_ ?_ h
  · rintro ⟨w, count⟩ ⟨⟨hnot, hsocket, hname, hpaths, hlost, hstuck⟩, rfl⟩
    dsimp only at *
    refine ⟨⟨fun fd => ?_, fun _ hmem => absurd hmem List.not_mem_nil, ?_, fun fd hfd => ?_, ?_,
      fun _ => hname⟩, ?_⟩
    · refine ⟨fun hyes => absurd hyes (hnot fd), ?_⟩
      rw [hsocket, hlost]
      rintro (hor | hor | hor)
      · cases hor
      · cases hor
      · cases hor
    · rw [hlost]
      exact List.nodup_nil
    · rw [hsocket] at hfd
      cases hfd
    · rw [hpaths, hname, hstuck]
      exact .refl _
    · rw [hlost]
      rfl
  · rintro ⟨w, count⟩ x ⟨w', count'⟩ - ⟨howned, hlost⟩ ⟨hw, hcount⟩
    obtain ⟨howned', hlost'⟩ := howned.next hw
    refine ⟨howned', hlost'.trans ?_⟩
    rw [hcount, ← hlost]

/-- What can be said of the descriptors and of the files of an interface that lost
    `count` sockets. -/
structure Accounted (w : World) (count : Nat) : Prop where
  sockets : ∀ fd, w.Socketed fd ↔ w.socket = some fd ∨ fd ∈ w.lost
  own : ∀ fd, w.socket = some fd → fd ∉ w.lost ∧ w.files.get fd = some (.socket w.asked)
  nodup : w.lost.Nodup
  lost : w.lost.length = count
  paths : w.paths.Perm ((if w.sockname = [] then [] else [w.sockname]) ++ w.stuck)

/-- **THE SOCKETS OF AN INTERFACE**: in any run it has one open socket at most, with
    all that was asked of it set, and beside it exactly as many as `Connect` got to
    UNIX peers that could not be put down.  The file of a socket stays no longer than
    the socket, unless it cannot be removed.  And there is a socket behind `Connect`
    and `Listen` if and only if they were successful. -/
theorem sockets_accounted (h : Reachable (interface.record 0 leaked) (w, count)) :
    Accounted w count ∧
    (∀ a sk o peer me ret w', w.connect a sk o peer me = some (ret, w') → sk.type ≠ .other →
      (0 ≤ ret ↔ w'.socket ≠ none)) ∧
    ∀ a sk o me ret w', w.listen a sk o me = some (ret, w') → sk.type ≠ .other →
      (ret = true ↔ w'.socket ≠ none) := by
  obtain ⟨howned, hlost⟩ := owned_of_reachable h
  refine ⟨⟨fun fd => ?_, howned.asked, howned.nodup, hlost, howned.paths⟩, ?_, ?_⟩
  · rw [howned.sockets]
    simp only [List.not_mem_nil, false_or]
  · intro a sk o peer me ret w' hw
    exact (connect_done a sk o peer me howned hw).2.2
  · intro a sk o me ret w' hw
    exact (listen_done a sk o me howned hw).2.2

/-- A step and its record. -/
def nextLeaked (s : World × Nat) (x : Act) : Option (World × Nat) :=
  (next s.1 x).map fun w => (w, leaked s.1 x s.2)

namespace Sample

/-- A process with its input open. -/
def idle : World where
  socket := none
  domain := .AF_UNSPEC
  sockname := []
  files := ⟨[some (.other 0)]⟩
  paths := []
  asked := []
  lost := []
  stuck := []

def fine : Answers where
  socket := true
  set := fun _ => true
  address := true
  here := true
  there := true
  bind := true
  chmod := true
  listen := true
  connect := .connected
  accept := true
  peerName := true
  myName := true
  peerSet := true
  close := true
  unlink := true

def file : Socket where
  domain := .AF_UNIX
  type := .SOCK_STREAM
  interface := none
  hostname := none
  port := 0
  abstract := none
  pathname := some ['/', 's']

def host : Socket where
  domain := .AF_INET
  type := .SOCK_STREAM
  interface := none
  hostname := some ['h']
  port := 80
  abstract := none
  pathname := none

def options : Options where
  deferAccept := false
  nodelay := true
  broadcast := false
  multicast := false
  closeOnExec := true
  reuseAddress := false
  nonBlocking := true
  keepalive := false

/-- Somebody is accepted, then the file cannot be removed and a peer cannot be put
    down, and then a host is connected. -/
def busy : List Act :=
  [.listen fine file options false,
   .accept fine options false,
   .connect { fine with peerSet := false, unlink := false } file options true false,
   .connect fine host options true true]

end Sample

theorem init_idle : interface.init Sample.idle := by
  refine ⟨?_, rfl, rfl, rfl, rfl, rfl⟩
  rintro (_ | fd) ⟨set, hget⟩
  · cases hget
  · cases hget

theorem sockets_accounted_busy :
    ∃ w, Sample.busy.foldlM nextLeaked (Sample.idle, 0) = some (w, 1) ∧ w.socket = some 3 ∧
      Accounted w 1 ∧
      (∀ a sk o peer me ret w', w.connect a sk o peer me = some (ret, w') → sk.type ≠ .other →
        (0 ≤ ret ↔ w'.socket ≠ none)) ∧
      ∀ a sk o me ret w', w.listen a sk o me = some (ret, w') → sk.type ≠ .other →
        (ret = true ↔ w'.socket ≠ none) := by
  have hrun : Sample.busy.foldlM nextLeaked (Sample.idle, 0) = some (_, 1) := rfl
  have hstep : ∀ x ∈ Sample.busy, ∀ s s', nextLeaked s x = some s' →
      (interface.record 0 leaked).step s x s' := by
    intro x _ s s' hs
    obtain ⟨w, hw, rfl⟩ := Option.map_eq_some_iff.mp hs
    exact ⟨hw, rfl⟩
  have hreach := Reachable.follow hstep (.start ⟨init_idle, rfl⟩) hrun
  exact ⟨_, hrun, rfl, sockets_accounted hreach⟩

end FlinterInterface
