import TapeNet.Address.Reader
import TapeNet.Outline
import TapeNet.Text.Blank

/-!
# Options

What can be chosen about a run: whether repetitions are folded, and the
addresses that the network listens on and dials.  Environment variables
override the defaults; a value that cannot be understood counts as absent.
-/

namespace TapeNet

/-- The addresses of the network: the one to listen on and the one to dial. -/
structure Addresses where
  listen : Address := .anyV4
  target : Address := .loopbackV4
  deriving DecidableEq, Inhabited

/-- What can be chosen about a run. -/
structure Options where
  fold : Bool := false
  addresses : Addresses := {}
  deriving DecidableEq, Inhabited

/-- Environment variables, with their values as bytes. -/
abbrev Environment := List (String × List UInt8)

namespace Environment

/-- The value of a variable, unless it is unset or not UTF-8. -/
def text? (env : Environment) (name : String) : Option String :=
  (env.lookup name).bind fun bytes => String.fromUTF8? ⟨bytes.toArray⟩

end Environment

namespace Addresses

/-- Addresses that stay on the machine itself. -/
def loopback : Addresses := { listen := .loopbackV4 }

def outline (addresses : Addresses) : Outline :=
  .fields "NetworkOpts"
    [("listen_addr", .word addresses.listen.text), ("target_addr", .word addresses.target.text)]
    false

end Addresses

namespace Options

def onWords : List String := ["1", "true", "yes", "on"]

def offWords : List String := ["0", "false", "no", "off"]

/-- The choice that a text makes, in any case and with white space around it. -/
def switch? (text : String) : Option Bool :=
  let word := String.ofList ((Text.trimmed text.toList).map Char.toLower)
  if onWords.contains word then some true
  else if offWords.contains word then some false
  else none

def ofEnvironment (env : Environment) : Options :=
  { fold := ((env.text? "TL_FOLD_REPEATS").bind switch?).getD false
    addresses :=
      { listen := ((env.text? "TL_NET_LISTEN_ADDR").bind Address.parse?).getD .anyV4
        target := ((env.text? "TL_NET_TARGET_ADDR").bind Address.parse?).getD .loopbackV4 } }

def outline (options : Options) : Outline :=
  .fields "ExecutorOpts"
    [("fold_repeats", .truth options.fold), ("network", options.addresses.outline)] false

end Options

end TapeNet
