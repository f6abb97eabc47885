/-!
# What a host lets its programs do

Which addresses can be bound, which port is free, and why connecting fails where it does.
-/

namespace TopicWatch

/-- A host as far as programs on it can tell. -/
structure Host where
  owns : String → Bool
  freePort : UInt16
  bindFailure : String
  connectFailure : Option String

namespace Host

/-- A host on which everything can be bound and nothing can be reached. -/
def isolated : Host :=
  ⟨fun _ => true, 49152, "", some "Network is unreachable (os error 101)"⟩

/-- A host that owns its loopback addresses and reaches what listens there. -/
def loopback : Host :=
  ⟨fun address => address.startsWith "127." || address.startsWith "0.0.0.0:"
      || address.startsWith "localhost:" || address.startsWith "[::1]:",
    49152, "Cannot assign requested address (os error 99)", none⟩

end Host

end TopicWatch
