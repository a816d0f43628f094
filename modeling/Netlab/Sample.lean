import Netlab.Topology.Encode
import Netlab.Value.Block

/-!
# A sample topology

Three nodes, one switch and every kind of link.
-/

namespace Netlab.Sample

def router : Node where
  name := "R1"
  image := some "slankdev/ubuntu:18.04"
  interfaces :=
    [ { name := "net0", type := "direct", args := some "C1#net0" },
      { name := "net1", type := "bridge", args := some "B0" },
      { name := "net2", type := "veth", args := some "peer0" },
      { name := "net3", type := "phys" } ]
  sysctls := ["net.ipv4.ip_forward=1"]

def topology : Topology where
  precmd := [⟨["export IMAGE=slankdev/ubuntu:18.04"]⟩]
  preinit := [⟨["modprobe br_netfilter"]⟩]
  postinit := [⟨["echo topology is up"]⟩]
  postfini := [⟨["echo topology is down"]⟩]
  nodes :=
    [ router,
      { name := "C1", type := some "netns" },
      { name := "C2", type := some "netns",
        interfaces := [{ name := "net0", type := "bridge", args := some "B0" }] } ]
  switches :=
    [ { name := "B0",
        interfaces :=
          [ { name := "net1", type := "docker", args := some "R1" },
            { name := "net0", type := "netns", args := some "C2" } ] } ]
  nodeConfigs :=
    [ ⟨"R1", ["ip addr add 10.0.0.1/24 dev net0", "ip addr add 10.1.0.1/24 dev net1"]⟩,
      ⟨"C1", ["ip addr add 10.0.0.2/24 dev net0", "ip route add default via 10.0.0.1"]⟩,
      ⟨"C2", ["ip addr add 10.1.0.2/24 dev net0", "ip route add default via 10.1.0.1"]⟩ ]
  tests :=
    [ ⟨"p2p", ["ip netns exec C1 ping -c2 10.0.0.1"]⟩,
      ⟨"routed", ["ip netns exec C1 ping -c2 10.1.0.2"]⟩ ]

/-- the sample as a topology file -/
def text : String := topology.toValue.block

end Netlab.Sample
